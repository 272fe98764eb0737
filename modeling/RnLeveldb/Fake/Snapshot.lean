import RnLeveldb.Fake.App

/-!
# Iterators as snapshots

An iterator copies the array of the store, "like LevelDB would". The copy is shallow: it has
the pairs of the store, and a `put` on a key that is there assigns the value of its pair. An
iterator keeps showing what the store held when it was made exactly as long as no `put`
changes the value of a pair it holds.
-/

namespace RnLeveldb

/-! ## What an iterator reports -/

namespace FakeLevelDBIterator

variable {h : Heap} {it : FakeLevelDBIterator} {c : Content} {es : List (Bytes × Bytes)}

/-- From every position, each call reports what it would over the entries `es`, and leaves the
iterator where it would. -/
def Reports (h : Heap) (it : FakeLevelDBIterator) (es : List (Bytes × Bytes)) : Prop :=
  ∀ (pos : Pos) (m : IteratorCall Data),
    AppResult.seen h (step h { it with pos := pos } m).1 =
        MapIterator.report ⟨es, pos⟩ (m.resolve h) ∧
      (step h { it with pos := pos } m).2.pos = MapIterator.move ⟨es, pos⟩ (m.resolve h)

lemma Shows.reports (hs : it.Shows h c) : it.Reports h c.entries := by
  intro pos m
  have hpos : Shows h { it with pos := pos } c := hs
  obtain ⟨hreport, hmove⟩ := hpos.step m
  exact ⟨hreport, congrArg FakeLevelDBIterator.pos hmove⟩

/-- What is reported from each position determines the entries. -/
lemma Reports.view (hr : it.Reports h es) : h.view it.kv = es := by
  refine List.ext_getElem? fun i => ?_
  have hkey := (hr (.index i) .keyBuf).1
  have hvalue := (hr (.index i) .valueBuf).1
  have hpair : Pos.get it.kv (.index i) = it.kv[i]? := rfl
  have hentry : Pos.get es (.index i) = es[i]? := rfl
  simp only [step, keyBuf, valueBuf, ofEntry, IteratorCall.resolve, MapIterator.report,
    MapIterator.ofEntry, MapIterator.entry, hpair, hentry] at hkey hvalue
  rw [Heap.view, List.getElem?_map]
  cases hp : it.kv[i]? with
  | none =>
    rw [hp] at hkey
    cases he : es[i]? with
    | none => rfl
    | some e =>
      rw [he] at hkey
      cases hkey
  | some p =>
    rw [hp] at hkey hvalue
    cases he : es[i]? with
    | none =>
      rw [he] at hkey
      cases hkey
    | some e =>
      rw [he] at hkey hvalue
      exact congrArg some (AppResult.eq_of_buffers hkey hvalue)

end FakeLevelDBIterator

/-! ## The overwriting `put` -/

namespace FakeApp

variable {s : FakeApp}

/-- The call does not change the value of a pair that an iterator holds. -/
def NoSharedOverwrite (s : FakeApp) (x : AppCall) : Prop :=
  ∀ q v, s.Overwrites x q v → ∀ it ∈ s.iterators, q ∈ it.kv →
    s.db.heap.bytes (s.db.heap.pair q).2 = s.db.heap.bytesOf v

/-- The arrays go on showing what they show exactly when no pair of theirs is changed. -/
lemma Wf.views_step_iff (hs : s.Wf) (x : AppCall) :
    (∀ kv ∈ s.arrays, (s.step x).2.db.heap.view kv = s.db.heap.view kv) ↔
      s.NoSharedOverwrite x := by
  obtain ⟨hgrow, hnot⟩ | ⟨q, v, hover, hheap⟩ := hs.heap_step x
  · refine iff_of_true (fun kv hkv => hgrow.view fun p hp => hs.arrays hkv hp) ?_
    intro q v hover
    exact absurd hover (hnot q v)
  · have hq : s.db.heap.HasPair q := by
      obtain ⟨y, -, hover⟩ := hover
      exact hover.hasPair hs.db
    -- the call overwrites the pair `q` and no other
    have honly : ∀ q' v', s.Overwrites x q' v' → q = q' ∧ v = v' := by
      rintro q' v' ⟨y', rfl, hover'⟩
      obtain ⟨y, hy, hover⟩ := hover
      cases hy
      obtain ⟨k, kv, -, -, -, hkv, -⟩ := id hover
      obtain ⟨c, hc⟩ := hs.db kv hkv
      exact hover.unique hc hover'
    have hview : ∀ kv ∈ s.arrays, ((s.step x).2.db.heap.view kv = s.db.heap.view kv ↔
        (q ∈ kv → s.db.heap.bytes (s.db.heap.pair q).2 = s.db.heap.bytesOf v)) := by
      intro kv hkv
      rw [hheap]
      exact s.db.heap.view_overwrite_eq_iff hq v fun p hp => hs.arrays hkv hp
    constructor
    · intro hsame q' v' hover' it hit hmem
      obtain ⟨rfl, rfl⟩ := honly q' v' hover'
      have hkv : it.kv ∈ s.arrays := List.mem_map_of_mem hit
      exact (hview it.kv hkv).mp (hsame it.kv hkv) hmem
    · intro hno kv hkv
      obtain ⟨it, hit, rfl⟩ := List.mem_map.mp hkv
      exact (hview it.kv hkv).mpr (hno q v hover it hit)

/-- A new iterator changes nothing. -/
lemma view_newArray {x : AppCall} {kv : List ℕ} (hkv : kv ∈ s.newArray x) :
    (s.step x).2.db.heap.view kv = s.db.heap.view kv := by
  cases x with
  | newIterator => rw [step, newIterator_db]
  | db y | iterator i m => cases hkv

end FakeApp

/-! ## Recorded snapshots -/

/-- The application, with what the store held when each iterator was made. -/
structure RecordedApp where
  app : FakeApp
  snapshots : List (List (Bytes × Bytes))

namespace RecordedApp

def new (h : Heap) : RecordedApp := { app := .new h, snapshots := [] }

def step (r : RecordedApp) (x : AppCall) : AppResult ℕ × RecordedApp :=
  ((r.app.step x).1,
    { app := (r.app.step x).2
      snapshots := r.snapshots ++ (r.app.newArray x).map r.app.db.heap.view })

/-- Every iterator reports the entries recorded for it. -/
def ShowsSnapshots (r : RecordedApp) : Prop :=
  ∀ (i : ℕ) (it : FakeLevelDBIterator) (es : List (Bytes × Bytes)),
    r.app.iterators[i]? = some it → r.snapshots[i]? = some es → it.Reports r.app.db.heap es

structure Wf (r : RecordedApp) : Prop where
  app : r.app.Wf
  length : r.snapshots.length = r.app.arrays.length
  ascending : ∀ es ∈ r.snapshots, SortedMap.Ascending es

variable {r : RecordedApp}

lemma wf_new (h : Heap) : (new h).Wf where
  app := FakeApp.wf_new h
  length := rfl
  ascending := by
    intro es hes
    cases hes

lemma Wf.step (hr : r.Wf) (x : AppCall) : (r.step x).2.Wf where
  app := hr.app.step x
  length := by
    dsimp only [RecordedApp.step]
    rw [FakeApp.arrays_step, List.length_append, List.length_append, List.length_map, hr.length]
  ascending := by
    intro es hes
    rcases List.mem_append.mp hes with hes | hes
    · exact hr.ascending es hes
    · obtain ⟨kv, hkv, rfl⟩ := List.mem_map.mp hes
      obtain ⟨c, hc⟩ := hr.app.db kv (FakeApp.mem_newArray hkv)
      rw [hc.view]
      exact c.ascending

/-- The iterators report their snapshots exactly when their arrays show them. -/
lemma Wf.showsSnapshots_iff (hr : r.Wf) :
    r.ShowsSnapshots ↔ r.snapshots = r.app.arrays.map r.app.db.heap.view := by
  have hlen : r.snapshots.length = (r.app.arrays.map r.app.db.heap.view).length := by
    rw [List.length_map, hr.length]
  constructor
  · intro hshow
    refine List.ext_getElem hlen fun i hi hi' => ?_
    have hit : i < r.app.iterators.length := by simpa [FakeApp.arrays] using hi'
    have hview := (hshow i _ _ (List.getElem?_eq_getElem hit) (List.getElem?_eq_getElem hi)).view
    simpa [FakeApp.arrays] using hview.symm
  · intro heq i it es hit hes
    have hasc := hr.ascending es (List.mem_of_getElem? hes)
    have hview : r.app.db.heap.view it.kv = es := by
      rw [heq, FakeApp.arrays, List.map_map, List.getElem?_map, hit] at hes
      exact Option.some.inj hes
    exact FakeLevelDBIterator.Shows.reports (c := ⟨es, hasc⟩) hview

/-! ## Runs -/

/-- One call: the iterators report their snapshots afterwards as well, unless the call
overwrites what one of them holds. -/
lemma Wf.showsSnapshots_step_iff (hr : r.Wf) (hshow : r.ShowsSnapshots) (x : AppCall) :
    (r.step x).2.ShowsSnapshots ↔ r.app.NoSharedOverwrite x := by
  rw [(hr.step x).showsSnapshots_iff, ← hr.app.views_step_iff x]
  dsimp only [RecordedApp.step]
  have hnew : (r.app.newArray x).map (r.app.step x).2.db.heap.view
      = (r.app.newArray x).map r.app.db.heap.view :=
    List.map_congr_left fun kv hkv => FakeApp.view_newArray hkv
  rw [FakeApp.arrays_step, List.map_append, hnew, hr.showsSnapshots_iff.mp hshow,
    List.append_left_inj, List.map_inj_left]
  exact forall₂_congr fun kv hkv => eq_comm

lemma showsSnapshots_new (h : Heap) : (new h).ShowsSnapshots := by
  intro i it es hit
  cases hit

/-- **Iterators are snapshots unless a value is overwritten.** In a run of the application, in
which it writes into no buffer, every iterator reports from every position exactly what the
store held when the iterator was made, after every call, if and only if no `put` of the run
changes the value of an entry that an iterator holds. -/
theorem iterators_are_snapshots_iff (h : Heap) (xs : List AppCall) :
    Machine.Along step (fun r x => (r.step x).2.ShowsSnapshots) (new h) xs ↔
      Machine.Along step (fun r x => r.app.NoSharedOverwrite x) (new h) xs := by
  refine Machine.along_congr_of_inv (I := fun r => r.Wf ∧ r.ShowsSnapshots) ?_ ?_
    ⟨wf_new h, showsSnapshots_new h⟩ xs
  · intro r x hr hno
    exact ⟨hr.1.step x, (hr.1.showsSnapshots_step_iff hr.2 x).mpr hno⟩
  · intro r x hr
    exact hr.1.showsSnapshots_step_iff hr.2 x

/-- A value is overwritten while an iterator is there. -/
def overwriteRun : List AppCall :=
  [.db (.put (.string [0x6B]) (.string [0x76])), .newIterator,
    .db (.put (.string [0x6B]) (.string [0x77]))]

/-- After this the iterator shows the value that was put last. -/
theorem overwrite_reaches_iterator :
    ¬ Machine.Along step (fun r x => (r.step x).2.ShowsSnapshots) (new ⟨[], []⟩) overwriteRun := by
  intro hrun
  have hshow := hrun.2.2.1 0 ⟨[0], .undefined⟩ [([0x6B], [0x76])] (by decide +kernel)
    (by decide +kernel) (.index 0) .valueBuf
  exact absurd hshow.1 (by decide +kernel)

end RecordedApp

end RnLeveldb
