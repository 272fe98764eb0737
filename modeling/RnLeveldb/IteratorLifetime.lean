import RnLeveldb.Reload

/-!
# Iterators and their databases

Closing a database empties its slot and nothing else: neither `LevelDB.close` nor a forced
`destroyDB` looks at the iterators, and an iterator that is left behind is used on memory of
a database that is gone. `cleanupLeveldb` clears both registries, the iterators first.

No iterator outlives its database in a run that closes databases only when they have no
iterator left.
-/

namespace RnLeveldb

/-- Every iterator in the registry belongs to a database that is still in its slot. -/
def World.IteratorsHaveDb (w : World) : Prop :=
  ∀ (k : ℕ) (it : Iterator), w.iterators.get k = some it →
    ∃ db, w.dbs.get it.slot = some db ∧ db.id = it.dbId

/-- A call, or the notification on which the native side calls `cleanupLeveldb`. -/
inductive LifetimeEvent where
  | call (x : Call × Faults)
  | cleanup

namespace Process

variable {s s' : Process} {c : Call}

def lifetimeEvent (s : Process) : LifetimeEvent → Option Outcome × Process
  | .call x => (some (s.step x).1, (s.step x).2)
  | .cleanup =>
    ((cleanupCrash s.native).map .crash, { s with native := cleanupLeveldb s.native })

/-- No iterator is left of the slot `ref` names. -/
def NoIteratorOf (s : Process) (ref : JsValue) : Prop :=
  ∀ (k : ℕ) (it : Iterator), s.native.iterators.get k = some it → refIdx ref ≠ some it.slot

/-- What the call closes has no iterator left. -/
def ClosesUnused (s : Process) (c : Call) : Prop :=
  (∀ i h, c = .close i → s.dbs[i]? = some h → s.NoIteratorOf h.ref) ∧
    ∀ name ref, c = .destroyDB name true → openRef s.openRefs name = some ref →
      s.NoIteratorOf ref

/-- The condition on the events of a run: databases are closed when they have no iterator
left, and iterators are used through wrappers that are not left over from before a cleanup,
`compareKey` only before its iterator is closed. -/
def LifetimeSafe (s : Process) : LifetimeEvent → Prop
  | .call x => s.ClosesUnused x.1 ∧
      ∀ i m, x.1 = .iterator i m → s.UsesCurrent x.1 ∧ s.NoNullCompare x.1
  | .cleanup => True

/-- A method of an iterator whose database has been closed throws and does nothing, and a
cleanup meets no such iterator. -/
def ThrowsAfterClose (s : Process) : LifetimeEvent → Prop
  | .call x => ∀ i m h d, x.1 = .iterator i m → s.iterators[i]? = some h → h.dbId = some d →
      ¬ s.native.dbs.Live Db.id d → ∃ e, s.step x = (.throw e, s)
  | .cleanup => (s.lifetimeEvent .cleanup).1 = none

/-! ## The invariant -/

/-- Emptying a slot without iterators leaves every iterator its database. -/
lemma iteratorsHaveDb_reset {w w' : World} {k : ℕ} (h : w.IteratorsHaveDb)
    (hno : ∀ (j : ℕ) (it : Iterator), w.iterators.get j = some it → it.slot ≠ k)
    (hits : w'.iterators = w.iterators) (hdbs : w'.dbs = w.dbs.reset k) :
    w'.IteratorsHaveDb := by
  intro j it hj
  rw [hits] at hj
  obtain ⟨db, hdb, hid⟩ := h j it hj
  refine ⟨db, ?_, hid⟩
  rw [hdbs, SlotTable.get_reset, if_neg (hno j it hj)]
  exact hdb

theorem iteratorsHaveDb_effect (h : s.native.IteratorsHaveDb) (hunused : s.ClosesUnused c)
    (heff : Effect s c s') : s'.native.IteratorsHaveDb := by
  cases heff with
  | openFailed =>
    intro j it hj
    obtain ⟨db, hdb, hid⟩ := h j it hj
    exact ⟨db, by rw [SlotTable.get_push_none]; exact hdb, hid⟩
  | opened =>
    intro j it hj
    obtain ⟨db, hdb, hid⟩ := h j it hj
    refine ⟨db, ?_, hid⟩
    rw [SlotTable.get_push, if_neg (ne_of_lt (SlotTable.lt_size_of_get hdb))]
    exact hdb
  -- the two ways to close a database; neither looks at the iterators
  | closed i k w db hi hk hdb =>
    refine iteratorsHaveDb_reset h ?_ rfl rfl
    intro j it hj hslot
    exact hunused.1 i w rfl hi j it hj (by rw [hk, hslot])
  | forceClosed name ref k db disk href hk hdb =>
    refine iteratorsHaveDb_reset h ?_ rfl rfl
    intro j it hj hslot
    exact hunused.2 name ref rfl href j it hj (by rw [hk, hslot])
  | newIterator i k w db hi hk hdb =>
    intro j it hj
    dsimp only at hj
    rw [SlotTable.get_push] at hj
    split at hj
    · cases hj
      exact ⟨db, hdb, rfl⟩
    · exact h j it hj
  | moved i k m w it it' hi hk hit hid hslot hdbId =>
    intro j it'' hj
    dsimp only at hj
    rw [SlotTable.get_update (SlotTable.lt_size_of_get hit)] at hj
    split at hj
    · cases hj
      obtain ⟨db, hdb, hid'⟩ := h k it hit
      exact ⟨db, by rw [hslot]; exact hdb, by rw [hdbId]; exact hid'⟩
    · exact h j it'' hj
  | closedIterator i k w it hi hk hit =>
    intro j it' hj
    dsimp only at hj
    rw [SlotTable.get_reset] at hj
    split at hj
    · cases hj
    · exact h j it' hj
  | stored | shared | destroyed | newBatch | appended | closedBatch => exact h

/-- The iterators are deleted while their databases are there. -/
lemma cleanupCrash_eq_none {w : World} (h : w.IteratorsHaveDb) : cleanupCrash w = none := by
  rw [cleanupCrash, if_pos]
  rw [List.all_eq_true]
  intro slot hslot
  cases slot with
  | none => rfl
  | some it =>
    obtain ⟨k, hk⟩ := SlotTable.mem_slots.mp hslot
    obtain ⟨db, hdb, hid⟩ := h k it hk
    simp [World.hasDb, hdb, hid]

/-- What is kept along a safe run. -/
structure LifetimeInv (s : Process) : Prop where
  haveDb : s.native.IteratorsHaveDb
  iterators : s.IteratorsOk

lemma LifetimeInv.event (h : s.LifetimeInv) (e : LifetimeEvent) (hsafe : s.LifetimeSafe e) :
    (s.lifetimeEvent e).2.LifetimeInv := by
  match e with
  | .call x =>
    have heff := step_effect s x.1 x.2
    exact ⟨iteratorsHaveDb_effect h.haveDb hsafe.1 heff, h.iterators.effect heff⟩
  | .cleanup =>
    refine ⟨?_, h.iterators.cleared (w := cleanupLeveldb s.native) rfl rfl⟩
    intro k it hk
    simp [lifetimeEvent, cleanupLeveldb] at hk

lemma lifetimeInv_start (disk : Dir → Option Content) (documentDir : Bytes) :
    (start disk documentDir).LifetimeInv where
  haveDb := by
    intro k it hk
    simp [start, evalModule, installLeveldb, cleanupLeveldb] at hk
  iterators := (inv_start disk documentDir).iterators

/-- The slot of a wrapper whose database is gone is empty. -/
lemma LifetimeInv.objAt_eq_none (h : s.LifetimeInv) {w : LevelDBIterator} (hw : w ∈ s.iterators)
    (hgen : w.gen = s.native.gen) {d : ℕ} (hd : w.dbId = some d)
    (hdead : ¬ s.native.dbs.Live Db.id d) : s.native.objAt .iterator w.ref = none := by
  -- an iterator in the slot would be the wrapper's own, and its database would be open
  by_contra hne
  obtain ⟨o, d', hok⟩ := h.iterators.handles w hw hgen
  have hdd : d' = d := Option.some.inj (hok.dbId.symm.trans hd)
  subst hdd
  have hfind := hok.holder.tracks.find_eq hne
  obtain ⟨it, hit, hid⟩ := Option.map_eq_some_iff.mp hfind
  obtain ⟨k, -, hget⟩ := Option.bind_eq_some_iff.mp hit
  obtain ⟨db, hdb, hdbId⟩ := h.haveDb k it hget
  exact hdead ⟨it.slot, db, hdb, hdbId.trans (hok.db hget hid)⟩

lemma LifetimeInv.throwsAfterClose (h : s.LifetimeInv) (e : LifetimeEvent)
    (hsafe : s.LifetimeSafe e) : s.ThrowsAfterClose e := by
  match e with
  | .cleanup =>
    show (cleanupCrash s.native).map Outcome.crash = none
    rw [cleanupCrash_eq_none h.haveDb, Option.map_none]
  | .call (c, f) =>
    rintro i m w d rfl hi hd hdead
    obtain ⟨hcur, hnull⟩ := hsafe.2 i m rfl
    have hu : (Kind.iterator, w.toHandle) ∈ (Call.iterator i m).uses s := by
      simp [Call.uses, hi]
    have hnone : s.native.objAt .iterator w.ref = none := by
      rcases hcur _ hu with hgen | hnone
      · exact h.objAt_eq_none (List.mem_of_getElem? hi) hgen hd hdead
      · exact hnone
    -- `compareKey` is the one method that does not throw on an empty slot
    obtain he | ⟨j, target, hc, -⟩ := step_of_empty hu hnone f
    · exact he
    · exact absurd hnone (hnull j target hc _ hu)

/-- **No iterator outlives its database when databases are closed without iterators.** After
every run whose events are safe each iterator's database is open, and along the run each
method of an iterator whose database has been closed throws and each cleanup deletes iterators
of open databases only. -/
theorem iterators_have_db (disk : Dir → Option Content) (documentDir : Bytes)
    (es : List LifetimeEvent)
    (hsafe : Machine.Along lifetimeEvent LifetimeSafe (start disk documentDir) es) :
    (Machine.run lifetimeEvent (start disk documentDir) es).native.IteratorsHaveDb ∧
      Machine.Along lifetimeEvent ThrowsAfterClose (start disk documentDir) es := by
  have h0 := lifetimeInv_start disk documentDir
  refine ⟨?_, ?_⟩
  · exact (Machine.inv_run_of_along (fun s e h hs => h.event e hs) h0 hsafe).haveDb
  · exact Machine.along_of_inv (fun s e h hs => h.event e hs)
      (fun s e h hs => h.throwsAfterClose e hs) h0 hsafe

/-- The iterator is closed, then its database, and the iterator used again. -/
theorem iterators_have_db_closed_first :
    (Machine.run lifetimeEvent (start (fun _ => none) (ascii "/d"))
      [.call (.newLevelDB [] true false, {}), .call (.newIterator 0, {}),
        .call (.iterator 0 .close, {}), .call (.close 0, {}),
        .call (.iterator 0 .valid, {})]).native.IteratorsHaveDb ∧
    Machine.Along lifetimeEvent ThrowsAfterClose (start (fun _ => none) (ascii "/d"))
      [.call (.newLevelDB [] true false, {}), .call (.newIterator 0, {}),
        .call (.iterator 0 .close, {}), .call (.close 0, {}), .call (.iterator 0 .valid, {})] := by
  have hunused : ∀ {s : Process} {c : Call}, (∀ i, c ≠ .close i) →
      (∀ name, c ≠ .destroyDB name true) → s.ClosesUnused c := fun h h' =>
    ⟨fun i _ hc => absurd hc (h i), fun name _ hc => absurd hc (h' name)⟩
  have hempty : ∀ k, (SlotTable.mk [none] : SlotTable Iterator).get k = none := by
    intro k
    cases k <;> rfl
  refine iterators_have_db (fun _ => none) (ascii "/d") _
    ⟨⟨hunused ?_ ?_, ?_⟩, ⟨hunused ?_ ?_, ?_⟩, ⟨hunused ?_ ?_, ?_⟩, ⟨⟨?_, ?_⟩, ?_⟩,
      ⟨hunused ?_ ?_, ?_⟩, trivial⟩
  case refine_9 =>
    rintro i m -
    refine ⟨fun u hu => ?_, fun j target h => by cases h⟩
    obtain rfl := List.mem_singleton.mp hu
    exact Or.inl rfl
  case refine_10 =>
    intro i h _ hi k it hk
    cases (hempty k).symm.trans hk
  case refine_15 =>
    rintro i m -
    refine ⟨fun u hu => ?_, fun j target h => by cases h⟩
    obtain rfl := List.mem_singleton.mp hu
    exact Or.inl rfl
  all_goals exact nofun

/-- A database is closed while its iterator is open: the iterator stays in its slot, and
`valid()` does not throw. -/
theorem iterator_outlives_db :
    ¬ (afterCalls [.newLevelDB [] true false, .newIterator 0, .close 0]).native.IteratorsHaveDb ∧
    ¬ ∃ e, ((afterCalls [.newLevelDB [] true false, .newIterator 0, .close 0]).step
      (.iterator 0 .valid, {})).1 = .throw e := by
  refine ⟨fun h => ?_, ?_⟩
  · obtain ⟨db, hdb, -⟩ := h 0 _ rfl
    cases hdb
  · have hret : ((afterCalls [.newLevelDB [] true false, .newIterator 0, .close 0]).step
        (.iterator 0 .valid, {})).1 = .ret (.bool false) [⟨.iterator, 1⟩] := by decide +kernel
    rw [hret]
    rintro ⟨e, he⟩
    cases he

end Process

end RnLeveldb
