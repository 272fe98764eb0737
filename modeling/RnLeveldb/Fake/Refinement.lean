import RnLeveldb.Fake.Store
import Mathlib.Data.List.InsertIdx
import Mathlib.Data.List.Nodup

/-!
# `FakeLevelDB` is a finite map

As long as nobody writes into a buffer, the array of a `FakeLevelDB` shows the entries of a
finite map in ascending key order: `put` inserts, `delete` erases, and a lookup returns what
the last write on its key has left. The map is the one the native database holds after the
same writes (`applyBatch`).
-/

namespace RnLeveldb

/-! ## The heap grows -/

namespace Heap

variable {h h' h'' : Heap}

/-- Objects are added; those that exist stay as they are. -/
structure Grows (h h' : Heap) : Prop where
  buffers : h.buffers <+: h'.buffers
  pairs : h.pairs <+: h'.pairs

lemma Grows.refl (h : Heap) : h.Grows h := ⟨List.prefix_rfl, List.prefix_rfl⟩

lemma Grows.trans (hg : h.Grows h') (hg' : h'.Grows h'') : h.Grows h'' :=
  ⟨hg.buffers.trans hg'.buffers, hg.pairs.trans hg'.pairs⟩

/-- What was there is as it was: the bytes of a buffer here, a pair, an argument, an entry and an
array below. -/
lemma Grows.bytes (hg : h.Grows h') {b : ℕ} (hb : b < h.buffers.length) :
    h'.bytes b = h.bytes b := by
  obtain ⟨rest, hrest⟩ := hg.buffers
  rw [Heap.bytes, Heap.bytes, ← hrest, List.getD_eq_getElem?_getD, List.getElem?_append_left hb,
    ← List.getD_eq_getElem?_getD]

lemma Grows.pair (hg : h.Grows h') {p : ℕ} (hp : p < h.pairs.length) :
    h'.pair p = h.pair p := by
  obtain ⟨rest, hrest⟩ := hg.pairs
  rw [Heap.pair, Heap.pair, ← hrest, List.getD_eq_getElem?_getD, List.getElem?_append_left hp,
    ← List.getD_eq_getElem?_getD]

lemma Grows.has (hg : h.Grows h') {d : Data} (hd : h.Has d) : h'.Has d := by
  cases d with
  | string s => trivial
  | buffer b => exact lt_of_lt_of_le hd hg.buffers.length_le

lemma Grows.bytesOf (hg : h.Grows h') {d : Data} (hd : h.Has d) :
    h'.bytesOf d = h.bytesOf d := by
  cases d with
  | string s => rfl
  | buffer b => exact hg.bytes hd

/-- The pair exists, and so do its two buffers. -/
structure HasPair (h : Heap) (p : ℕ) : Prop where
  pair : p < h.pairs.length
  key : (h.pair p).1 < h.buffers.length
  value : (h.pair p).2 < h.buffers.length

lemma Grows.hasPair (hg : h.Grows h') {p : ℕ} (hp : h.HasPair p) : h'.HasPair p where
  pair := lt_of_lt_of_le hp.pair hg.pairs.length_le
  key := by
    rw [hg.pair hp.pair]
    exact lt_of_lt_of_le hp.key hg.buffers.length_le
  value := by
    rw [hg.pair hp.pair]
    exact lt_of_lt_of_le hp.value hg.buffers.length_le

lemma Grows.entry (hg : h.Grows h') {p : ℕ} (hp : h.HasPair p) : h'.entry p = h.entry p := by
  rw [Heap.entry, Heap.entry, hg.pair hp.pair, hg.bytes hp.key, hg.bytes hp.value]

lemma Grows.view (hg : h.Grows h') {kv : List ℕ} (hkv : ∀ p ∈ kv, h.HasPair p) :
    h'.view kv = h.view kv :=
  List.map_congr_left fun p hp => hg.entry (hkv p hp)

/-! ## New objects -/

/-- A new buffer changes nothing that is there. -/
lemma newBuffer_grows (h : Heap) (b : Bytes) : h.Grows (h.newBuffer b).2 :=
  ⟨List.prefix_append _ _, List.prefix_rfl⟩

lemma toArraybuf_grows (h : Heap) (d : Data) : h.Grows (h.toArraybuf d).2 := by
  cases d with
  | string s => exact h.newBuffer_grows _
  | buffer b => exact Grows.refl h

/-- What `toArraybuf` returns exists. -/
lemma toArraybuf_lt {d : Data} (hd : h.Has d) :
    (h.toArraybuf d).1 < (h.toArraybuf d).2.buffers.length := by
  cases d with
  | string s => simp [toArraybuf, newBuffer]
  | buffer b => exact hd

/-- And it has the bytes of the argument. -/
lemma toArraybuf_bytes (h : Heap) (d : Data) :
    (h.toArraybuf d).2.bytes (h.toArraybuf d).1 = h.bytesOf d := by
  cases d with
  | string s => simp [toArraybuf, newBuffer, bytes, bytesOf]
  | buffer b => rfl

lemma newPair_grows (h : Heap) (k v : Data) : h.Grows (h.newPair k v).2 := by
  have hk := h.toArraybuf_grows k
  have hv := (h.toArraybuf k).2.toArraybuf_grows v
  refine (hk.trans hv).trans ⟨List.prefix_rfl, List.prefix_append _ _⟩

/-- The new pair consists of the two buffers. -/
lemma newPair_pair (h : Heap) (k v : Data) :
    (h.newPair k v).2.pair (h.newPair k v).1 =
      ((h.toArraybuf k).1, ((h.toArraybuf k).2.toArraybuf v).1) := by
  simp [newPair, pair]

lemma newPair_hasPair {k v : Data} (hk : h.Has k) (hv : h.Has v) :
    (h.newPair k v).2.HasPair (h.newPair k v).1 := by
  have hgv := (h.toArraybuf k).2.toArraybuf_grows v
  refine ⟨by simp [newPair], ?_, ?_⟩
  · rw [newPair_pair]
    exact lt_of_lt_of_le (toArraybuf_lt hk) hgv.buffers.length_le
  · rw [newPair_pair]
    exact toArraybuf_lt ((h.toArraybuf_grows k).has hv)

/-- A new pair shows the two arguments. -/
lemma newPair_entry {k v : Data} (hk : h.Has k) (hv : h.Has v) :
    (h.newPair k v).2.entry (h.newPair k v).1 = (h.bytesOf k, h.bytesOf v) := by
  have hgk := h.toArraybuf_grows k
  have hgv := (h.toArraybuf k).2.toArraybuf_grows v
  have hkey : (h.newPair k v).2.bytes (h.toArraybuf k).1 = h.bytesOf k := by
    rw [← h.toArraybuf_bytes k]
    exact hgv.bytes (toArraybuf_lt hk)
  have hvalue : (h.newPair k v).2.bytes ((h.toArraybuf k).2.toArraybuf v).1 = h.bytesOf v := by
    rw [← hgk.bytesOf hv]
    exact toArraybuf_bytes _ v
  rw [entry, newPair_pair, hkey, hvalue]

/-! ## Assigning a value -/

lemma setValue_pair (h : Heap) {p : ℕ} (hp : p < h.pairs.length) (value q : ℕ) :
    (h.setValue p value).pair q = if q = p then ((h.pair p).1, value) else h.pair q := by
  rw [pair, setValue, List.getD_eq_getElem?_getD, List.getElem?_set]
  by_cases hqp : q = p
  · rw [hqp, if_pos rfl, if_pos rfl, if_pos hp]
    rfl
  · rw [if_neg (Ne.symm hqp), if_neg hqp, ← List.getD_eq_getElem?_getD]
    rfl

/-- The buffers of all pairs are still there. -/
lemma setValue_hasPair {p value q : ℕ} (hp : p < h.pairs.length)
    (hvalue : value < h.buffers.length) (hkey : (h.pair p).1 < h.buffers.length)
    (hq : h.HasPair q) : (h.setValue p value).HasPair q := by
  refine ⟨?_, ?_, ?_⟩
  · rw [setValue, List.length_set]
    exact hq.pair
  · rw [h.setValue_pair hp]
    split
    · exact hkey
    · exact hq.key
  · rw [h.setValue_pair hp]
    split
    · exact hvalue
    · exact hq.value

/-- Assigning to a pair changes the value that it shows, and no other pair. -/
lemma setValue_entry (h : Heap) {p : ℕ} (hp : p < h.pairs.length) (value : ℕ) :
    (h.setValue p value).entry = Function.update h.entry p (h.key p, h.bytes value) := by
  funext q
  rw [entry, h.setValue_pair hp]
  by_cases hqp : q = p
  · rw [hqp, if_pos rfl, Function.update_self]
    rfl
  · rw [if_neg hqp, Function.update_of_ne hqp]
    rfl

end Heap

/-! ## Single calls -/

namespace FakeLevelDB

variable {s : FakeLevelDB} {c : Content}

/-- The array shows the entries of `c`. -/
structure Shows (s : FakeLevelDB) (kv : List ℕ) (c : Content) : Prop where
  array : s.kv = some kv
  pairs : ∀ p ∈ kv, s.heap.HasPair p
  view : s.heap.view kv = c.entries

variable {kv : List ℕ}

/-- The search of the store is that of the map. -/
lemma Shows.idx_eq (h : s.Shows kv c) (k : Bytes) :
    s.idx k = .ok (SortedMap.lowerBound c.entries k) := by
  have hkeys : s.kv.map (fun kv => kv.map s.heap.key) = some (c.entries.map Prod.fst) := by
    rw [h.array, ← h.view, Option.map_some, Heap.view, List.map_map]
    rfl
  rw [idx, hkeys]
  exact getIdx_eq_lowerBound c.ascending k

/-- A position of the array shows the entry at that position of the map. -/
lemma Shows.getElem? (h : s.Shows kv c) (i : ℕ) :
    c.entries[i]? = kv[i]?.map s.heap.entry := by
  rw [← h.view, Heap.view, List.getElem?_map]

lemma Shows.length (h : s.Shows kv c) : c.entries.length = kv.length := by
  rw [← h.view, Heap.view, List.length_map]

/-- The pair at a position, seen as the entry of the map. -/
lemma Shows.entry_at (h : s.Shows kv c) {i q : ℕ} (hq : kv[i]? = some q) :
    c.entries[i]? = some (s.heap.entry q) := by
  rw [h.getElem?, hq]
  rfl

/-- No two pairs of the array have the same key. -/
lemma Shows.nodup_keys (h : s.Shows kv c) : (kv.map s.heap.key).Nodup := by
  have hasc : SortedMap.Ascending (s.heap.view kv) := by
    rw [h.view]
    exact c.ascending
  exact List.pairwise_map.mpr ((List.pairwise_map.mp hasc).imp fun hlt => ne_of_lt hlt)

/-- No pair is in the array twice. -/
lemma Shows.nodup (h : s.Shows kv c) : kv.Nodup := List.Nodup.of_map _ h.nodup_keys

/-- New objects do not matter. -/
lemma Shows.grows (h : s.Shows kv c) {heap : Heap} (hg : s.heap.Grows heap) :
    Shows { s with heap := heap } kv c where
  array := h.array
  pairs := fun p hp => hg.hasPair (h.pairs p hp)
  view := (hg.view h.pairs).trans h.view

/-- A new pair is put into the array. -/
lemma Shows.insert (h : s.Shows kv c) {k v : Data} (hk : s.heap.Has k) (hv : s.heap.Has v)
    {kv' : List ℕ} {c' : Content}
    (hmem : ∀ p ∈ kv', p = (s.heap.newPair k v).1 ∨ p ∈ kv)
    (hview : (s.heap.newPair k v).2.view kv' = c'.entries) :
    Shows { heap := (s.heap.newPair k v).2, kv := some kv' } kv' c' where
  array := rfl
  pairs := by
    intro p hp
    rcases hmem p hp with rfl | hp
    · exact Heap.newPair_hasPair hk hv
    · exact (s.heap.newPair_grows k v).hasPair (h.pairs p hp)
  view := hview

/-- The value of the pair at position `i` is assigned; the pair is nowhere else. -/
lemma Shows.assign (h : s.Shows kv c) {v : Data} (hv : s.heap.Has v) {i q : ℕ}
    (hq : kv[i]? = some q) {c' : Content}
    (hc' : c'.entries = c.entries.set i (s.heap.key q, s.heap.bytesOf v)) :
    Shows { s with heap := (s.heap.toArraybuf v).2.setValue q (s.heap.toArraybuf v).1 } kv c' := by
  have hg := s.heap.toArraybuf_grows v
  have hgrown := h.grows hg
  have hmem : q ∈ kv := List.mem_of_getElem? hq
  have hpair := hgrown.pairs q hmem
  -- each pair stands once in the array, so only position `i` shows the change
  have hidx : kv.idxOf q = i := by
    obtain ⟨hi, rfl⟩ := List.getElem?_eq_some_iff.mp hq
    exact h.nodup.idxOf_getElem i hi
  have hkey : (s.heap.toArraybuf v).2.key q = s.heap.key q :=
    congrArg Prod.fst (hg.entry (h.pairs q hmem))
  refine ⟨h.array, ?_, ?_⟩
  · intro p hp
    exact Heap.setValue_hasPair hpair.pair (Heap.toArraybuf_lt hv) hpair.key (hgrown.pairs p hp)
  · dsimp only
    rw [Heap.view, Heap.setValue_entry _ hpair.pair, h.nodup.map_update, if_pos hmem, hidx,
      ← Heap.view, hgrown.view, hkey, Heap.toArraybuf_bytes, hc']

/-- What `put` does: a new pair is appended or inserted before a larger key, or the value of
the pair with its key is assigned. -/
lemma Shows.put_eq (h : s.Shows kv c) (k v : Data) :
    (SortedMap.lowerBound c.entries (s.heap.bytesOf k) = kv.length ∧
      s.put k v = (.ok .undefined,
        { heap := (s.heap.newPair k v).2, kv := some (kv ++ [(s.heap.newPair k v).1]) })) ∨
    ∃ q, kv[SortedMap.lowerBound c.entries (s.heap.bytesOf k)]? = some q ∧
      ((s.heap.bytesOf k < s.heap.key q ∧
          s.put k v = (.ok .undefined,
            { heap := (s.heap.newPair k v).2,
              kv := some (kv.insertIdx (SortedMap.lowerBound c.entries (s.heap.bytesOf k))
                (s.heap.newPair k v).1) })) ∨
        (s.heap.key q = s.heap.bytesOf k ∧
          s.put k v = (.ok .undefined,
            { s with
              heap := (s.heap.toArraybuf v).2.setValue q (s.heap.toArraybuf v).1 }))) := by
  unfold FakeLevelDB.put
  rw [h.idx_eq, h.array]
  dsimp only
  by_cases hlen : SortedMap.lowerBound c.entries (s.heap.bytesOf k) = kv.length
  · rw [if_pos hlen]
    exact Or.inl ⟨hlen, rfl⟩
  rw [if_neg hlen]
  have hlt : SortedMap.lowerBound c.entries (s.heap.bytesOf k) < kv.length := by
    have hle := SortedMap.lowerBound_le c.entries (s.heap.bytesOf k)
    rw [h.length] at hle
    omega
  obtain ⟨q, hq⟩ : ∃ q, kv[SortedMap.lowerBound c.entries (s.heap.bytesOf k)]? = some q :=
    ⟨_, List.getElem?_eq_getElem hlt⟩
  rw [hq]
  dsimp only
  refine Or.inr ⟨q, rfl, ?_⟩
  by_cases hgt : arraybufGt (s.heap.key q) (s.heap.bytesOf k)
  · rw [if_pos hgt]
    exact Or.inl ⟨arraybufGt_iff.mp hgt, rfl⟩
  · rw [if_neg hgt]
    -- the key found is not less, and this one is not greater
    have hge : s.heap.bytesOf k ≤ s.heap.key q := by
      by_contra hless
      have hpos := (SortedMap.lt_iff_lt_lowerBound c.ascending (h.entry_at hq)).mp
        (not_le.mp hless)
      exact lt_irrefl _ hpos
    exact Or.inr ⟨le_antisymm (not_lt.mp (mt arraybufGt_iff.mpr hgt)) hge, rfl⟩

/-- `put` inserts. -/
lemma Shows.put (h : s.Shows kv c) {k v : Data} (hk : s.heap.Has k) (hv : s.heap.Has v) :
    (s.put k v).1 = .ok .undefined ∧
      ∃ kv', (s.put k v).2.Shows kv' (c.insert (s.heap.bytesOf k) (s.heap.bytesOf v)) := by
  have hgrow := s.heap.newPair_grows k v
  have hentry := Heap.newPair_entry hk hv
  have hview : (s.heap.newPair k v).2.view kv = c.entries := (hgrow.view h.pairs).trans h.view
  obtain ⟨hlen, hput⟩ | ⟨q, hq, ⟨hgt, hput⟩ | ⟨heq, hput⟩⟩ := h.put_eq k v
  · rw [hput]
    refine ⟨rfl, kv ++ [(s.heap.newPair k v).1], h.insert hk hv ?_ ?_⟩
    · intro p hp
      simpa [or_comm] using hp
    · rw [Heap.view, List.map_append, ← Heap.view, hview]
      rw [← h.length] at hlen
      rw [SortedMap.insert_entries, SortedMap.insertEntry_eq_append hlen, List.map_singleton,
        hentry]
  · rw [hput]
    refine ⟨rfl, _, h.insert hk hv ?_ ?_⟩
    · intro p hp
      exact List.eq_or_mem_of_mem_insertIdx hp
    · rw [Heap.view, List.map_insertIdx, ← Heap.view, hview, hentry, SortedMap.insert_entries,
        SortedMap.insertEntry_eq_insertIdx (h.entry_at hq) hgt]
  · rw [hput]
    have hset : (c.insert (s.heap.bytesOf k) (s.heap.bytesOf v)).entries =
        c.entries.set (SortedMap.lowerBound c.entries (s.heap.bytesOf k))
          (s.heap.key q, s.heap.bytesOf v) := by
      rw [SortedMap.insert_entries, SortedMap.insertEntry_eq_set (h.entry_at hq) heq, heq]
    exact ⟨rfl, kv, h.assign hv hq hset⟩

/-- What the store does at the position it has found: the entry there, if any, is compared
with the key in both directions. -/
lemma Shows.found (h : s.Shows kv c) (k : Bytes) :
    c.get k = none ∧
        (∀ q, kv[SortedMap.lowerBound c.entries k]? = some q → s.heap.key q ≠ k) ∨
      ∃ q, kv[SortedMap.lowerBound c.entries k]? = some q ∧ s.heap.key q = k ∧
        c.get k = some (s.heap.entry q).2 := by
  have hget : c.get k = kv[SortedMap.lowerBound c.entries k]?.bind fun q =>
      if s.heap.key q = k then some (s.heap.entry q).2 else none := by
    rw [SortedMap.get, SortedMap.lookup_eq_getElem? c.ascending, h.getElem?, Option.bind_map]
    refine congrArg _ (funext fun q => ?_)
    rw [Function.comp_apply]
    congr
  rw [hget]
  cases kv[SortedMap.lowerBound c.entries k]? with
  | none => exact Or.inl ⟨rfl, nofun⟩
  | some q =>
    by_cases hkey : s.heap.key q = k
    · exact Or.inr ⟨q, rfl, hkey, by rw [Option.bind_some, if_pos hkey]⟩
    · refine Or.inl ⟨by rw [Option.bind_some, if_neg hkey], ?_⟩
      rintro _ ⟨rfl⟩
      exact hkey

/-- `delete` erases. -/
lemma Shows.delete (h : s.Shows kv c) (k : Data) :
    (s.delete k).1 = .ok .undefined ∧
      ∃ kv', (s.delete k).2.Shows kv' (c.erase (s.heap.bytesOf k)) := by
  unfold FakeLevelDB.delete
  rw [h.idx_eq, h.array]
  dsimp only
  obtain ⟨hnone, hne⟩ | ⟨q, hq, hkey, -⟩ := h.found (s.heap.bytesOf k)
  · -- no entry has the key
    have hany : kv[SortedMap.lowerBound c.entries (s.heap.bytesOf k)]?.any (fun q =>
        !arraybufGt (s.heap.key q) (s.heap.bytesOf k)
          && !arraybufGt (s.heap.bytesOf k) (s.heap.key q)) ≠ true := by
      rw [Ne, Option.any_eq_true]
      rintro ⟨q, hq, hboth⟩
      exact hne q hq ((neither_arraybufGt _ _).mp hboth)
    rw [if_neg hany]
    refine ⟨rfl, kv, h.array, h.pairs, ?_⟩
    rw [SortedMap.erase_entries, SortedMap.eraseEntry_eq_self hnone]
    exact h.view
  · rw [hq, Option.any_some, if_pos ((neither_arraybufGt _ _).mpr hkey)]
    refine ⟨rfl, _, rfl, fun p hp => h.pairs p (List.mem_of_mem_eraseIdx hp), ?_⟩
    dsimp only
    rw [Heap.view, ← List.eraseIdx_map, ← Heap.view, h.view, SortedMap.erase_entries,
      SortedMap.eraseEntry_eq_eraseIdx c.ascending (h.entry_at hq) hkey]

/-- A lookup returns the buffer that holds the value. -/
lemma Shows.getBuf (h : s.Shows kv c) (k : Data) :
    c.get (s.heap.bytesOf k) = none ∧ s.getBuf k = .ok .null ∨
      ∃ b, c.get (s.heap.bytesOf k) = some (s.heap.bytes b) ∧ s.getBuf k = .ok (.buffer b) := by
  unfold FakeLevelDB.getBuf
  rw [h.idx_eq, h.array]
  dsimp only
  obtain ⟨hnone, hne⟩ | ⟨q, hq, hkey, hvalue⟩ := h.found (s.heap.bytesOf k)
  · refine Or.inl ⟨hnone, ?_⟩
    cases hq : kv[SortedMap.lowerBound c.entries (s.heap.bytesOf k)]? with
    | none => rfl
    | some q =>
      dsimp only
      have hdiffer : (arraybufGt (s.heap.key q) (s.heap.bytesOf k)
          || arraybufGt (s.heap.bytesOf k) (s.heap.key q)) = true := by
        by_contra hneither
        rw [Bool.not_eq_true, Bool.or_eq_false_iff] at hneither
        apply hne q hq
        apply (neither_arraybufGt _ _).mp
        rw [hneither.1, hneither.2]
        rfl
      rw [if_pos hdiffer]
  · refine Or.inr ⟨(s.heap.pair q).2, hvalue, ?_⟩
    rw [hq]
    dsimp only
    rw [hkey, arraybufGt_eq_false.mpr le_rfl]
    rfl

/-- `getStr` decodes what `getBuf` returns. -/
lemma getStr_of_null {k : Data} (h : s.getBuf k = .ok .null) : s.getStr k = .ok .null := by
  rw [getStr, h]

lemma getStr_of_buffer {k : Data} {b : ℕ} (h : s.getBuf k = .ok (.buffer b)) :
    s.getStr k = .ok (.string (textDecode (s.heap.bytes b))) := by
  rw [getStr, h]

/-- `getStr` decodes what the map has under the key. -/
lemma Shows.getStr (h : s.Shows kv c) (k : Data) :
    s.getStr k = .ok ((c.get (s.heap.bytesOf k)).elim .null fun v => .string (textDecode v)) := by
  obtain ⟨hnone, hbuf⟩ | ⟨b, hsome, hbuf⟩ := h.getBuf k
  · rw [getStr_of_null hbuf, hnone]
    rfl
  · rw [getStr_of_buffer hbuf, hsome]
    rfl

/-! ## Runs -/

/-- The methods that read or write data. -/
def IsData : FakeCall → Prop
  | .put _ _ | .delete _ | .getStr _ | .getBuf _ => True
  | .newBuffer _ | .close | .closed => False

/-- The search of a closed store throws. -/
lemma idx_of_closed (h : s.kv = none) (k : Bytes) :
    s.idx k = .error (.error (ascii "FakeLevelDB was closed!")) := by
  rw [idx, h]
  rfl

/-- A closed store throws. -/
lemma step_of_closed (h : s.kv = none) {x : FakeCall} (hx : IsData x) :
    ∃ e, s.step x = (.error e, s) := by
  cases x with
  | newBuffer | close | closed => exact absurd hx id
  | put k v =>
    dsimp only [step, put]
    rw [idx_of_closed h]
    split <;> exact ⟨_, rfl⟩
  | delete k =>
    dsimp only [step, delete]
    rw [idx_of_closed h]
    split <;> exact ⟨_, rfl⟩
  | getStr k =>
    dsimp only [step, getStr, getBuf]
    rw [idx_of_closed h]
    split <;> exact ⟨_, rfl⟩
  | getBuf k =>
    dsimp only [step, getBuf]
    rw [idx_of_closed h]
    split <;> exact ⟨_, rfl⟩

/-- Closed is closed. -/
lemma step_kv_of_closed (x : FakeCall) (h : s.kv = none) : (s.step x).2.kv = none := by
  by_cases hx : IsData x
  · obtain ⟨e, he⟩ := step_of_closed h hx
    rw [he]
    exact h
  · cases x with
    | newBuffer | closed => exact h
    | close => rfl
    | put | delete | getStr | getBuf => exact absurd trivial hx

/-- The write a call makes, with the bytes of its arguments. -/
def op (s : FakeLevelDB) : FakeCall → List BatchOp
  | .put k v =>
    if s.heap.Has k ∧ s.heap.Has v then [.put (s.heap.bytesOf k) (s.heap.bytesOf v)] else []
  | .delete k => if s.heap.Has k then [.delete (s.heap.bytesOf k)] else []
  | .newBuffer _ | .getStr _ | .getBuf _ | .close | .closed => []

/-- The writes of a run. -/
def writes (s : FakeLevelDB) : List FakeCall → List BatchOp
  | [] => []
  | x :: xs => s.op x ++ (s.step x).2.writes xs

/-- A call has on the map the effect of its write. -/
lemma Shows.step (h : s.Shows kv c) {x : FakeCall} (hx : x ≠ .close) :
    ∃ kv', (s.step x).2.Shows kv' (applyBatch c (s.op x)) := by
  cases x with
  | newBuffer b => exact ⟨kv, h.grows (s.heap.newBuffer_grows b)⟩
  | put k v =>
    dsimp only [FakeLevelDB.step, op]
    split
    · next hd => exact (h.put hd.1 hd.2).2
    · exact ⟨kv, h⟩
  | delete k =>
    dsimp only [FakeLevelDB.step, op]
    split
    · exact (h.delete k).2
    · exact ⟨kv, h⟩
  | getStr k =>
    dsimp only [FakeLevelDB.step]
    split <;> exact ⟨kv, h⟩
  | getBuf k =>
    dsimp only [FakeLevelDB.step]
    split <;> exact ⟨kv, h⟩
  | close => exact absurd rfl hx
  | closed => exact ⟨kv, h⟩

/-- As long as the store is open it shows the map that the writes of the run leave. -/
lemma Shows.run (h : s.Shows kv c) {xs : List FakeCall} (hxs : FakeCall.close ∉ xs) :
    ∃ kv', (Machine.run FakeLevelDB.step s xs).Shows kv' (applyBatch c (s.writes xs)) := by
  induction xs generalizing s kv c with
  | nil => exact ⟨kv, h⟩
  | cons x xs ih =>
    rw [List.mem_cons, not_or] at hxs
    obtain ⟨kv', hstep⟩ := h.step (Ne.symm hxs.1)
    obtain ⟨kv'', hrun⟩ := ih hstep hxs.2
    refine ⟨kv'', ?_⟩
    rw [writes, applyBatch, List.foldl_append]
    exact hrun

/-- A closed store stays closed. -/
lemma run_of_closed (h : s.kv = none) (xs : List FakeCall) :
    (Machine.run FakeLevelDB.step s xs).kv = none :=
  Machine.inv_run (I := fun s : FakeLevelDB => s.kv = none)
    (fun _ x hs => step_kv_of_closed x hs) h xs

lemma run_of_close {xs : List FakeCall} (hxs : FakeCall.close ∈ xs) :
    (Machine.run FakeLevelDB.step s xs).kv = none := by
  obtain ⟨as, bs, rfl⟩ := List.append_of_mem hxs
  rw [Machine.run_append, Machine.run_cons]
  exact run_of_closed rfl bs

/-- The value stored under a key. -/
def value (s : FakeLevelDB) (key : Bytes) : Option Bytes :=
  s.kv.bind fun kv => SortedMap.lookup (s.heap.view kv) key

/-- The value under a key is that of the map. -/
lemma Shows.value (h : s.Shows kv c) (key : Bytes) : s.value key = c.get key := by
  rw [FakeLevelDB.value, h.array, Option.bind_some, h.view]
  rfl

/-- The value of the last put on `key`, unless a delete of it came later. -/
def lastPut (ops : List BatchOp) (key : Bytes) : Option Bytes := ops.foldl (BatchOp.on key) none

/-- Both lookups of `k` return `v`. -/
def LooksUp (s : FakeLevelDB) (k : Data) : Option Bytes → Prop
  | none => s.step (.getBuf k) = (.ok .null, s) ∧ s.step (.getStr k) = (.ok .null, s)
  | some v => (∃ b, s.step (.getBuf k) = (.ok (.buffer b), s) ∧ s.heap.bytes b = v) ∧
      s.step (.getStr k) = (.ok (.string (textDecode v)), s)

/-- A lookup finds it. -/
lemma Shows.looksUp (h : s.Shows kv c) {k : Data} (hk : s.heap.Has k) :
    s.LooksUp k (c.get (s.heap.bytesOf k)) := by
  have hstep : s.step (.getBuf k) = (s.getBuf k, s) := if_pos hk
  have hstep' : s.step (.getStr k) = (s.getStr k, s) := if_pos hk
  obtain ⟨hnone, hbuf⟩ | ⟨b, hsome, hbuf⟩ := h.getBuf k
  · rw [hnone]
    refine ⟨?_, ?_⟩
    · rw [hstep, hbuf]
    · rw [hstep', getStr_of_null hbuf]
  · rw [hsome]
    refine ⟨⟨b, ?_, rfl⟩, ?_⟩
    · rw [hstep, hbuf]
    · rw [hstep', getStr_of_buffer hbuf]

/-- A call whose write is on other keys leaves the value of `key` alone. -/
lemma Shows.value_step (h : s.Shows kv c) {x : FakeCall} (hx : x ≠ .close) {key : Bytes}
    (hop : (s.op x).foldl (BatchOp.on key) (c.get key) = c.get key) :
    (s.step x).2.value key = s.value key := by
  obtain ⟨kv', hstep⟩ := h.step hx
  rw [hstep.value, h.value, get_applyBatch, hop]

/-- A put changes the value under its own key only. -/
lemma Shows.value_put (h : s.Shows kv c) (k v : Data) {key : Bytes}
    (hne : key ≠ s.heap.bytesOf k) : (s.step (.put k v)).2.value key = s.value key := by
  have hx : FakeCall.put k v ≠ .close := nofun
  refine h.value_step hx ?_
  dsimp only [op]
  split
  · rw [List.foldl_cons, BatchOp.on, if_neg (Ne.symm hne)]
    rfl
  · rfl

/-- So does a delete. -/
lemma Shows.value_delete (h : s.Shows kv c) (k : Data) {key : Bytes}
    (hne : key ≠ s.heap.bytesOf k) : (s.step (.delete k)).2.value key = s.value key := by
  have hx : FakeCall.delete k ≠ .close := nofun
  refine h.value_step hx ?_
  dsimp only [op]
  split
  · rw [List.foldl_cons, BatchOp.on, if_neg (Ne.symm hne)]
    rfl
  · rfl

/-- A new store shows the empty map. -/
lemma shows_new (h : Heap) : (new h).Shows [] SortedMap.empty where
  array := rfl
  pairs := by
    intro p hp
    cases hp
  view := rfl

/-- **`FakeLevelDB` refines a finite map.** After every run on a new store that has not closed
it, the array is in strictly ascending key order; every key has the value of the last put on
it that no delete followed, and both lookups return it, whether the key is given as a string
or as a buffer; and the next put or delete changes no other key. After a run that has closed
the store, it stays closed and every one of these calls throws. -/
theorem fakeLevelDB_refines_map (h : Heap) (xs : List FakeCall) :
    let s := Machine.run step (new h) xs
    (FakeCall.close ∉ xs →
      (∃ kv, s.kv = some kv ∧ SortedMap.Ascending (s.heap.view kv)) ∧
      (∀ key, s.value key = lastPut ((new h).writes xs) key) ∧
      (∀ k, s.heap.Has k → s.LooksUp k (lastPut ((new h).writes xs) (s.heap.bytesOf k))) ∧
      (∀ k v key, key ≠ s.heap.bytesOf k → (s.step (.put k v)).2.value key = s.value key) ∧
      ∀ k key, key ≠ s.heap.bytesOf k → (s.step (.delete k)).2.value key = s.value key) ∧
    (FakeCall.close ∈ xs → s.kv = none ∧ ∀ x, IsData x → ∃ e, s.step x = (.error e, s)) := by
  refine ⟨fun hopen => ?_, fun hclose => ?_⟩
  · obtain ⟨kv, hshown⟩ := (shows_new h).run hopen
    have hget : ∀ key, (applyBatch SortedMap.empty ((new h).writes xs)).get key
        = lastPut ((new h).writes xs) key := by
      intro key
      rw [get_applyBatch]
      rfl
    refine ⟨⟨kv, hshown.array, ?_⟩, ?_, ?_, ?_, ?_⟩
    · rw [hshown.view]
      exact SortedMap.ascending _
    · intro key
      rw [hshown.value, hget]
    · intro k hk
      rw [← hget]
      exact hshown.looksUp hk
    · intro k v key hne
      exact hshown.value_put k v hne
    · intro k key hne
      exact hshown.value_delete k hne
  · have hkv : (Machine.run step (new h) xs).kv = none := run_of_close hclose
    exact ⟨hkv, fun x hx => step_of_closed hkv hx⟩

end FakeLevelDB

end RnLeveldb
