import RnLeveldb.Wrappers

/-!
# What a call can do

`Effect s c s'` lists everything the call `c` can do to the registries, to `openRefs` and to
the wrappers of a process, with what the code has checked by then. `step_effect` is the one
place where the host functions are taken apart; every invariant of runs is proved against
the list.
-/

namespace RnLeveldb

/-! ## Lookups -/

/-- All three lookups find what is in the slot the reference names. -/
lemma toOption_valueToSlot {α : Type} (t : SlotTable α) (v : JsValue) :
    (valueToSlot t v).toOption = (refIdx v).bind t.get := by
  cases v with
  | number n =>
    by_cases hn : n < 0
    · simp [valueToSlot, refIdx, hn, Except.toOption]
    · by_cases hsize : (t.size : ℤ) ≤ n
      · have hget : t.get n.toNat = none := SlotTable.get_of_size_le (by omega)
        simp [valueToSlot, refIdx, hn, hsize, hget, Except.toOption]
      · simp only [valueToSlot, refIdx, hn, hsize, or_self, if_false, Option.bind_some]
        cases t.get n.toNat <;> rfl
  | _ => rfl

/-- The lookup that reports what is wrong succeeds where a slot of the registry is full. -/
lemma valueToSlot_ok {α : Type} {t : SlotTable α} {v : JsValue} {a : α} :
    valueToSlot t v = .ok a ↔ ∃ i, refIdx v = some i ∧ t.get i = some a := by
  have h := toOption_valueToSlot t v
  rw [← Option.bind_eq_some_iff, ← h]
  cases valueToSlot t v <;> simp [Except.toOption]

/-- It fails where the slot is empty and where the reference names none. -/
lemma valueToSlot_error {α : Type} {t : SlotTable α} {v : JsValue} :
    (∃ e, valueToSlot t v = .error e) ↔ (refIdx v).bind t.get = none := by
  rw [← toOption_valueToSlot]
  cases valueToSlot t v <;> simp [Except.toOption]

lemma slotOf_of_refIdx {v : JsValue} {i : ℕ} (h : refIdx v = some i) : slotOf v = i := by
  rw [slotOf, h]
  rfl

/-! ## The list of effects -/

namespace Process

/-- The path `leveldbOpen` and `leveldbDestroy` build for a name. -/
def pathOf (s : Process) (name : JsString) : Bytes := s.native.documentDir ++ utf8 name

/-- Only the stored data differ. -/
def withDisk (s : Process) (disk : Dir → Option Content) : Process :=
  { s with native := { s.native with disk := disk } }

end Process

/-- The directory of the database `ref` finds. -/
def World.DirOf (w : World) (ref : JsValue) (d : Dir) : Prop :=
  ∃ db, Process.dbAt w ref = some db ∧ db.dir = d

namespace Process

/-- What the call `c` can leave of the process `s`. -/
inductive Effect (s : Process) : Call → Process → Prop
  -- only the database the call is made on is written; also every call that fails before it
  -- changes anything
  | stored (c : Call) (disk : Dir → Option Content)
      (hdisk : ∀ d, s.native.disk d ≠ none → disk d ≠ none)
      (hown : ∀ d, disk d ≠ s.native.disk d →
        ∃ u, (c.uses s).head? = some (Kind.db, u) ∧ s.native.DirOf u.ref d) :
      Effect s c (s.withDisk disk)
  -- the slot is pushed before the status of `DB::Open` is looked at
  | openFailed (name : JsString) (createIfMissing errorIfExists : Bool)
      (href : openRef s.openRefs name = none) :
      Effect s (.newLevelDB name createIfMissing errorIfExists)
        { s with native := { s.native with dbs := s.native.dbs.push none } }
  | opened (name : JsString) (createIfMissing errorIfExists : Bool) (content : Content)
      (href : openRef s.openRefs name = none)
      (hlock : lockFileName (s.pathOf name) ∉ s.native.locks)
      (hexists : errorIfExists = true → s.native.disk (resolve (s.pathOf name)) = none) :
      Effect s (.newLevelDB name createIfMissing errorIfExists)
        { s with
          native := { s.native with
            dbs := s.native.dbs.push
              (some { id := s.native.nextId, name := name, path := s.pathOf name })
            disk := Function.update s.native.disk (resolve (s.pathOf name)) (some content)
            locks := lockFileName (s.pathOf name) :: s.native.locks
            nextId := s.native.nextId + 1 }
          openRefs := (name, .number s.native.dbs.size) :: s.openRefs
          dbs := s.dbs ++ [{ ref := .number s.native.dbs.size, obj := some s.native.nextId,
                             gen := s.native.gen, name := name }] }
  -- the name is bound: nothing is opened, whatever the two flags say
  | shared (name : JsString) (createIfMissing errorIfExists : Bool) (ref : JsValue)
      (href : openRef s.openRefs name = some ref) :
      Effect s (.newLevelDB name createIfMissing errorIfExists)
        { s with dbs := s.dbs ++
            [{ ref := ref, obj := (dbAt s.native ref).map Db.id, gen := s.native.gen,
               name := name }] }
  | closed (i k : ℕ) (h : LevelDB) (db : Db) (hi : s.dbs[i]? = some h)
      (hk : refIdx h.ref = some k) (hdb : s.native.dbs.get k = some db) :
      Effect s (.close i)
        { s with
          native := s.native.closeSlot k db
          openRefs := s.openRefs.filter fun e => e.2 ≠ h.ref
          dbs := s.dbs.set i { h with ref := .undefined } }
  -- `rest` is what a failing `DestroyDB` leaves behind
  | destroyed (name : JsString) (force : Bool) (rest : Option Content)
      (href : openRef s.openRefs name = none)
      (hlock : lockFileName (s.pathOf name) ∉ s.native.locks) :
      Effect s (.destroyDB name force)
        (s.withDisk (Function.update s.native.disk (resolve (s.pathOf name)) rest))
  -- the database is closed also when the destruction then fails; its wrappers keep their index
  | forceClosed (name : JsString) (ref : JsValue) (k : ℕ) (db : Db)
      (disk : Dir → Option Content) (href : openRef s.openRefs name = some ref)
      (hk : refIdx ref = some k) (hdb : s.native.dbs.get k = some db)
      (hdisk : disk = s.native.disk ∨
        lockFileName (s.pathOf name) ∉ (s.native.closeSlot k db).locks ∧
          ∃ rest, disk = Function.update s.native.disk (resolve (s.pathOf name)) rest) :
      Effect s (.destroyDB name true)
        { s with
          native := { s.native.closeSlot k db with disk := disk }
          openRefs := s.openRefs.filter fun e => e.1 ≠ name }
  | newIterator (i k : ℕ) (h : LevelDB) (db : Db) (hi : s.dbs[i]? = some h)
      (hk : refIdx h.ref = some k) (hdb : s.native.dbs.get k = some db) :
      Effect s (.newIterator i)
        { s with
          native := { s.native with
            iterators := s.native.iterators.push (some
              { id := s.native.nextId, slot := k, dbId := db.id,
                snapshot := s.native.content db.dir })
            nextId := s.native.nextId + 1 }
          iterators := s.iterators ++
            [{ ref := .number s.native.iterators.size, obj := some s.native.nextId,
               gen := s.native.gen, dbId := some db.id }] }
  -- where the iterator stands is left open, whose iterator it is is not
  | moved (i k : ℕ) (m : IteratorMethod) (h : LevelDBIterator) (it it' : Iterator)
      (hi : s.iterators[i]? = some h) (hk : refIdx h.ref = some k)
      (hit : s.native.iterators.get k = some it) (hid : it'.id = it.id)
      (hslot : it'.slot = it.slot) (hdbId : it'.dbId = it.dbId) :
      Effect s (.iterator i m)
        { s with native := { s.native with iterators := s.native.iterators.update k it' } }
  | closedIterator (i k : ℕ) (h : LevelDBIterator) (it : Iterator)
      (hi : s.iterators[i]? = some h) (hk : refIdx h.ref = some k)
      (hit : s.native.iterators.get k = some it) :
      Effect s (.iterator i .close)
        { s with
          native := { s.native with iterators := s.native.iterators.reset k }
          iterators := s.iterators.set i { h with ref := .number (-1) } }
  | newBatch :
      Effect s .newWriteBatch
        { s with
          native := { s.native with
            batches := (s.native.batches.alloc { id := s.native.nextId, ops := [] }).2
            nextId := s.native.nextId + 1 }
          batches := s.batches ++
            [{ ref := .number (s.native.batches.alloc { id := s.native.nextId, ops := [] }).1,
               obj := some s.native.nextId, gen := s.native.gen }] }
  | appended (c : Call) (i k : ℕ) (h : LevelDBWriteBatch) (b : WriteBatch) (op : BatchOp)
      (hc : (∃ key value, c = .batchPut i key value) ∨ ∃ key, c = .batchDelete i key)
      (hi : s.batches[i]? = some h) (hk : refIdx h.ref = some k)
      (hb : s.native.batches.get k = some b) :
      Effect s c
        { s with native := { s.native with
            batches := s.native.batches.update k { b with ops := b.ops ++ [op] } } }
  | closedBatch (i k : ℕ) (h : LevelDBWriteBatch) (b : WriteBatch)
      (hi : s.batches[i]? = some h) (hk : refIdx h.ref = some k)
      (hb : s.native.batches.get k = some b) :
      Effect s (.batchClose i)
        { s with
          native := { s.native with batches := s.native.batches.reset k }
          batches := s.batches.set i { h with ref := .number (-1) } }

/-- Nothing happens. -/
lemma Effect.refl (s : Process) (c : Call) : Effect s c s :=
  Effect.stored (s := s) c s.native.disk (fun _ h => h) fun _ hne => absurd rfl hne

end Process

/-! ## Storage calls -/

namespace World

/-- `w'` differs from `w` in what is on disk in directories with `own` only, and no database
has gone from it. -/
def Stored (own : Dir → Prop) (w w' : World) : Prop :=
  ∃ disk, w' = { w with disk := disk } ∧ (∀ d, w.disk d ≠ none → disk d ≠ none) ∧
    ∀ d, disk d ≠ w.disk d → own d

variable {own : Dir → Prop}

lemma Stored.refl (w : World) : w.Stored own w :=
  ⟨w.disk, rfl, fun _ h => h, fun _ hne => absurd rfl hne⟩

/-- What two storage calls change, one after the other, is still in directories with `own`. -/
lemma Stored.trans {w w' w'' : World} (h : w.Stored own w') (h' : w'.Stored own w'') :
    w.Stored own w'' := by
  obtain ⟨d₁, rfl, hd₁, ho₁⟩ := h
  obtain ⟨d₂, rfl, hd₂, ho₂⟩ := h'
  refine ⟨d₂, rfl, fun d hd => hd₂ d (hd₁ d hd), fun d hne => ?_⟩
  by_cases h : d₁ d = w.disk d
  · exact ho₂ d (by rw [← h] at hne; exact hne)
  · exact ho₁ d h

/-- A write changes the directory of its database. -/
lemma write_stored (w : World) (db : Db) (ops : List BatchOp) (o : WriteOutcome)
    (hown : own db.dir) : w.Stored own (w.write db ops o).2 := by
  have hupd : ∀ d, w.disk d ≠ none →
      Function.update w.disk db.dir (some (applyBatch (w.content db.dir) ops)) d ≠ none := by
    intro d hd
    by_cases h : d = db.dir
    · subst h
      simp
    · rwa [Function.update_of_ne h]
  have hsame : ∀ d,
      Function.update w.disk db.dir (some (applyBatch (w.content db.dir) ops)) d ≠ w.disk d →
      own d := by
    intro d hne
    by_cases h : d = db.dir
    · rwa [h]
    · exact absurd (Function.update_of_ne h _ _) hne
  match o with
  | .ok => exact ⟨_, rfl, hupd, hsame⟩
  | .fail _ true => exact ⟨_, rfl, hupd, hsame⟩
  | .fail _ false => exact Stored.refl w

end World

/-- The loop of a merge writes the directory of the destination only, also where it is cut short
by a failing read. -/
lemma mergeLoop_stored {own : Dir → Prop} (faults : Faults) (dst : Db) (hown : own dst.dir)
    (batchMerge : Bool) (fuel n : ℕ) (it : Iterator) (w : World) (batch : List BatchOp) :
    w.Stored own (mergeLoop faults dst batchMerge fuel n it w batch).2.1 := by
  induction fuel generalizing n it w batch with
  | zero => exact World.Stored.refl w
  | succ fuel ih =>
    unfold mergeLoop
    split
    · next k v it' _ _ =>
      split
      · exact ih (n + 1) it' w _
      · exact (w.write_stored dst [.put k v] (faults.writes n) hown).trans (ih (n + 1) it' _ batch)
    · exact World.Stored.refl w

/-- The lookup fails and nothing happens, or the operation acts on the database found. -/
lemma withDb_cases (w : World) (fn : HostFn) (ref : JsValue) (act : Db → Outcome × World) :
    (∃ e, withDb w fn ref act = (.throw (.host fn (.db e)), w)) ∨
      ∃ k db, refIdx ref = some k ∧ w.dbs.get k = some db ∧ withDb w fn ref act = act db := by
  unfold withDb
  cases h : valueToDb w ref with
  | error e => exact Or.inl ⟨e, rfl⟩
  | ok db =>
    obtain ⟨k, hk, hdb⟩ := valueToSlot_ok.mp h
    exact Or.inr ⟨k, db, hk, hdb, rfl⟩

/-- The lookup finds a null pointer and nothing happens, or the operation acts on the iterator
found. -/
lemma withIterator_cases (w : World) (fn : HostFn) (ref : JsValue)
    (act : Iterator → Outcome × World) :
    withIterator w fn ref act = (.throw (.host fn .invalidParams), w) ∨
      ∃ k it, refIdx ref = some k ∧ w.iterators.get k = some it ∧
        withIterator w fn ref act = act it := by
  unfold withIterator
  cases h : valueToIterator w ref with
  | none => exact Or.inl rfl
  | some it =>
    rw [valueToIterator, toOption_valueToSlot, Option.bind_eq_some_iff] at h
    obtain ⟨k, hk, hit⟩ := h
    exact Or.inr ⟨k, it, hk, hit, rfl⟩

/-- The same for batches. -/
lemma withBatch_cases (w : World) (fn : HostFn) (ref : JsValue)
    (act : WriteBatch → Outcome × World) :
    (∃ e, withBatch w fn ref act = (.throw (.host fn (.batch e)), w)) ∨
      ∃ k b, refIdx ref = some k ∧ w.batches.get k = some b ∧
        withBatch w fn ref act = act b := by
  unfold withBatch
  cases h : valueToWriteBatch w ref with
  | error e => exact Or.inl ⟨e, rfl⟩
  | ok b =>
    obtain ⟨k, hk, hb⟩ := valueToSlot_ok.mp h
    exact Or.inr ⟨k, b, hk, hb, rfl⟩

/-- Reporting a status does not touch the native state. -/
lemma reportStatus_snd (fn : HostFn) (on : List Obj) (r : Status × World) :
    (reportStatus fn on r).2 = r.2 := by
  obtain ⟨st, w⟩ := r
  cases st <;> rfl

section

variable (w : World) (faults : Faults)

lemma dirOf_of_get {w : World} {ref : JsValue} {k : ℕ} {db : Db} (hk : refIdx ref = some k)
    (hdb : w.dbs.get k = some db) : w.DirOf ref db.dir :=
  ⟨db, by rw [Process.dbAt, hk, Option.bind_some, hdb], rfl⟩

/-- A put writes the directory of the database its reference finds, or nothing. -/
lemma leveldbPut_stored (ref k v : JsValue) :
    w.Stored (w.DirOf ref) (leveldbPut w faults ref k v).2 := by
  obtain ⟨e, h⟩ | ⟨_, db, hk, hdb, h⟩ := withDb_cases w .leveldbPut ref _ <;>
    rw [leveldbPut, h]
  · exact World.Stored.refl w
  · split
    · rw [reportStatus_snd]
      exact w.write_stored db _ _ (dirOf_of_get hk hdb)
    · exact World.Stored.refl w

/-- So does a delete, also one that reports that the key was not found. -/
lemma leveldbDelete_stored (ref k : JsValue) :
    w.Stored (w.DirOf ref) (leveldbDelete w faults ref k).2 := by
  obtain ⟨e, h⟩ | ⟨_, db, hk, hdb, h⟩ := withDb_cases w .leveldbDelete ref _ <;>
    rw [leveldbDelete, h]
  · exact World.Stored.refl w
  · split
    · exact World.Stored.refl w
    · next key _ =>
      have hw := w.write_stored db [.delete key] (faults.writes 0) (dirOf_of_get hk hdb)
      split
      · next w' hr => rwa [hr] at hw
      · next f w' hr =>
        rw [hr] at hw
        split <;> exact hw

/-- `getStr` and `getBuf` only read. -/
lemma getValue_snd (fn : HostFn) (make : Bytes → JsValue) (ref k : JsValue) :
    (getValue w faults fn make ref k).2 = w := by
  obtain ⟨e, h⟩ | ⟨_, db, _, _, h⟩ := withDb_cases w fn ref _ <;> rw [getValue, h]
  split
  · rfl
  · split
    · rfl
    · split <;> rfl

/-- A batch is written to the directory of the database it is written through. -/
lemma leveldbWriteWriteBatch_stored (ref batchRef : JsValue) :
    w.Stored (w.DirOf ref) (leveldbWriteWriteBatch w faults ref batchRef).2 := by
  obtain ⟨e, h⟩ | ⟨_, db, hk, hdb, h⟩ := withDb_cases w .leveldbWriteWriteBatch ref _ <;>
    rw [leveldbWriteWriteBatch, h]
  · exact World.Stored.refl w
  · obtain ⟨e, h⟩ | ⟨_, b, _, _, h⟩ := withBatch_cases w .leveldbWriteWriteBatch batchRef _ <;>
      rw [h]
    · exact World.Stored.refl w
    · rw [reportStatus_snd]
      exact w.write_stored db _ _ (dirOf_of_get hk hdb)

/-- A merge writes the destination only. -/
lemma leveldbMerge_stored (dstRef srcRef batchMerge : JsValue) :
    w.Stored (w.DirOf dstRef) (leveldbMerge w faults dstRef srcRef batchMerge).2 := by
  unfold leveldbMerge
  split
  · exact World.Stored.refl w
  · next dst hdst =>
    obtain ⟨k, hk, hdb⟩ := valueToSlot_ok.mp hdst
    have hown := dirOf_of_get hk hdb
    split
    · exact World.Stored.refl w
    · next src _ =>
      split
      · next bm =>
        dsimp only
        have hloop := mergeLoop_stored faults dst hown bm
        -- a read error ends the call with what the loop has put
        split
        · exact hloop ..
        · by_cases hbm : bm = true
          · rw [if_pos hbm]
            exact (hloop ..).trans (World.write_stored _ dst _ _ hown)
          · rw [if_neg hbm]
            exact hloop ..
      · exact World.Stored.refl w

end

/-! ## One call -/

namespace Process

variable {s : Process} {faults : Faults}

/-- A storage call made on the first wrapper of the call is listed. -/
lemma Effect.of_stored {w : World} (c : Call) {u : Handle}
    (hu : (c.uses s).head? = some (Kind.db, u)) (h : s.native.Stored (s.native.DirOf u.ref) w) :
    Effect s c { s with native := w } := by
  obtain ⟨disk, rfl, hdisk, hown⟩ := h
  exact Effect.stored c disk hdisk fun d hne => ⟨u, hu, hown d hne⟩

/-- A host function that throws or crashes without touching the native state. -/
lemma Effect.of_native_eq {w : World} (c : Call) (h : w = s.native) :
    Effect s c { s with native := w } := by
  subst h
  exact Effect.refl s c

/-- A reference that finds a database closes it. -/
lemma leveldbClose_of_get {w : World} {ref : JsValue} {k : ℕ} {db : Db} (hk : refIdx ref = some k)
    (hdb : w.dbs.get k = some db) :
    leveldbClose w ref = (.ret .null [⟨.db, db.id⟩], w.closeSlot k db) := by
  have hok : valueToSlot w.dbs (.number k) = .ok db :=
    valueToSlot_ok.mpr ⟨k, refIdx_natCast k, hdb⟩
  rw [refIdx_eq_some.mp hk, leveldbClose, hok, Int.toNat_natCast]

/-- Closing throws and changes nothing, or empties the slot and takes back the lock. -/
lemma leveldbClose_cases (w : World) (ref : JsValue) :
    (∃ e, leveldbClose w ref = (.throw e, w)) ∨
      ∃ k db, refIdx ref = some k ∧ w.dbs.get k = some db ∧
        leveldbClose w ref = (.ret .null [⟨.db, db.id⟩], w.closeSlot k db) := by
  by_cases hfind : ∃ k db, refIdx ref = some k ∧ w.dbs.get k = some db
  · obtain ⟨k, db, hk, hdb⟩ := hfind
    exact Or.inr ⟨k, db, hk, hdb, leveldbClose_of_get hk hdb⟩
  · left
    unfold leveldbClose
    split
    · next n =>
      cases h : valueToSlot w.dbs (.number n) with
      | error e => exact ⟨_, rfl⟩
      | ok db =>
        obtain ⟨k, hk, hdb⟩ := valueToSlot_ok.mp h
        exact absurd ⟨k, db, hk, hdb⟩ hfind
    · exact ⟨_, rfl⟩

/-- A destruction changes nothing, or what is stored in a directory that no open database has
locked. -/
lemma leveldbDestroy_cases (w : World) (faults : Faults) (name : JsString) :
    (leveldbDestroy w faults (.string name)).2 = w ∨
      lockFileName (w.documentDir ++ utf8 name) ∉ w.locks ∧
        ∃ rest, (leveldbDestroy w faults (.string name)).2 =
          { w with disk :=
              Function.update w.disk (resolve (w.documentDir ++ utf8 name)) rest } := by
  have hd : (leveldbDestroy w faults (.string name)).2
      = (w.destroyDb faults (w.documentDir ++ utf8 name)).2 := by
    unfold leveldbDestroy
    dsimp only
    split
    · next h => rw [h]
    · next h => rw [h]
  rw [hd]
  unfold World.destroyDb
  split
  · exact Or.inl rfl
  · split
    · exact Or.inl rfl
    · next hlock =>
      split
      · exact Or.inr ⟨hlock, none, rfl⟩
      · next rest _ => exact Or.inr ⟨hlock, rest, rfl⟩

/-- Opening fails and leaves an empty slot, or adds a database under a lock that was free, on
a directory that was empty if it had to be. -/
lemma leveldbOpen_cases (w : World) (faults : Faults) (name : JsString) (c e : Bool) :
    (∃ f, leveldbOpen w faults (.string name) (.bool c) (.bool e) =
      (.throw (.host .leveldbOpen (.status f)), { w with dbs := w.dbs.push none })) ∨
    lockFileName (w.documentDir ++ utf8 name) ∉ w.locks ∧
      (e = true → w.disk (resolve (w.documentDir ++ utf8 name)) = none) ∧
      ∃ content, leveldbOpen w faults (.string name) (.bool c) (.bool e) =
        (.ret (.number w.dbs.size) [⟨.db, w.nextId⟩],
          { w with
            dbs := w.dbs.push (some
              { id := w.nextId, name := name, path := w.documentDir ++ utf8 name })
            disk := Function.update w.disk (resolve (w.documentDir ++ utf8 name)) (some content)
            locks := lockFileName (w.documentDir ++ utf8 name) :: w.locks
            nextId := w.nextId + 1 }) := by
  unfold leveldbOpen
  dsimp only
  split
  · exact Or.inl ⟨_, rfl⟩
  · next db w' h =>
    unfold World.openDb at h
    split at h
    · cases h
    · next hlock =>
      split at h
      · cases h
      · split at h
        · next hdisk =>
          split at h
          · cases h
            exact Or.inr ⟨hlock, fun _ => hdisk, SortedMap.empty, rfl⟩
          · cases h
        · next content _ =>
          split at h
          · cases h
          · next he =>
            cases h
            exact Or.inr ⟨hlock, fun he' => absurd he' he, content, rfl⟩

/-- The constructor shares an open database, opens one, or leaves an empty slot behind. -/
lemma newLevelDB_effect (s : Process) (faults : Faults) (name : JsString) (c e : Bool) :
    Effect s (.newLevelDB name c e) (s.newLevelDB faults name c e).2 := by
  unfold newLevelDB
  split
  · exact Effect.refl s _
  · split
    · next ref href => exact Effect.shared name c e ref href
    · next href =>
      obtain ⟨f, h⟩ | ⟨hlock, hexists, content, h⟩ := leveldbOpen_cases s.native faults name c e
      · rw [h]
        exact Effect.openFailed name c e href
      · rw [h]
        have heff := Effect.opened name c e content href hlock hexists
        -- the wrapper records the object that has just been put into the last slot
        have hobj : ∀ w : World, w.dbs = s.native.dbs.push (some
            { id := s.native.nextId, name := name, path := s.pathOf name }) →
            (dbAt w (.number s.native.dbs.size)).map Db.id = some s.native.nextId := by
          intro w hw
          rw [dbAt, refIdx_natCast, Option.bind_some, hw, SlotTable.get_push, if_pos rfl]
          rfl
        dsimp only
        rw [hobj _ rfl]
        exact heff

lemma close_effect (s : Process) (i : ℕ) (h : LevelDB) (hi : s.dbs[i]? = some h) :
    Effect s (.close i) (s.close i h).2 := by
  unfold close
  obtain ⟨e, hc⟩ | ⟨k, db, hk, hdb, hc⟩ := leveldbClose_cases s.native h.ref
  · rw [hc]
    exact Effect.of_native_eq _ rfl
  · rw [hc]
    exact Effect.closed i k h db hi hk hdb

/-- `destroyDB` closes the database of the name first, if it is forced to. -/
lemma destroyDB_effect (s : Process) (faults : Faults) (name : JsString) (force : Bool) :
    Effect s (.destroyDB name force) (s.destroyDB faults name force).2 := by
  unfold destroyDB
  split
  · -- not bound, but possibly open under another name for the directory
    next href =>
    obtain h | ⟨hlock, rest, h⟩ := leveldbDestroy_cases s.native faults name
    · exact Effect.of_native_eq _ h
    · rw [forwardAs, h]
      exact Effect.destroyed name force rest href hlock
  · next ref href =>
    split
    · next hforce =>
      subst hforce
      obtain ⟨e, hc⟩ | ⟨k, db, hk, hdb, hc⟩ := leveldbClose_cases s.native ref
      · rw [hc]
        exact Effect.of_native_eq _ rfl
      · rw [hc]
        -- `leveldbDestroy` runs on the state in which the lock has been released
        obtain h | ⟨hlock, rest, h⟩ := leveldbDestroy_cases (s.native.closeSlot k db) faults name
        · dsimp only [forwardAs]
          rw [h]
          exact Effect.forceClosed name ref k db s.native.disk href hk hdb (Or.inl rfl)
        · dsimp only [forwardAs]
          rw [h]
          exact Effect.forceClosed name ref k db _ href hk hdb (Or.inr ⟨hlock, rest, rfl⟩)
    · exact Effect.refl s _

/-- The new iterator is put into a slot of its own, with the database it was asked of. -/
lemma newIterator_effect (s : Process) (i : ℕ) (h : LevelDB) (hi : s.dbs[i]? = some h) :
    Effect s (.newIterator i) (s.newIterator h).2 := by
  unfold newIterator
  split
  · exact Effect.refl s _
  · obtain ⟨e, hn⟩ | ⟨k, db, hk, hdb, hn⟩ := withDb_cases s.native .leveldbNewIterator h.ref _ <;>
      rw [leveldbNewIterator, hn]
    · exact Effect.of_native_eq _ rfl
    · have heff := Effect.newIterator i k h db hi hk hdb
      have hobj : ∀ it : Iterator, (refIdx (.number s.native.iterators.size)).bind
          (s.native.iterators.push (some it)).get = some it := by
        intro it
        rw [refIdx_natCast, Option.bind_some, SlotTable.get_push, if_pos rfl]
      dsimp only
      rw [slotOf_of_refIdx hk, hobj]
      simp only [dbAt, hk, Option.bind_some, hdb]
      exact heff

/-- A move changes neither which iterator it is nor whose. -/
lemma Iterator.next_id {it it' : Iterator} {f : Option Failure} (h : it.next f = some it') :
    it'.id = it.id ∧ it'.slot = it.slot ∧ it'.dbId = it.dbId := by
  rw [Iterator.next, Option.map_eq_some_iff] at h
  obtain ⟨p, -, rfl⟩ := h
  simp

lemma Iterator.prev_id {it it' : Iterator} {f : Option Failure} (h : it.prev f = some it') :
    it'.id = it.id ∧ it'.slot = it.slot ∧ it'.dbId = it.dbId := by
  rw [Iterator.prev, Option.map_eq_some_iff] at h
  obtain ⟨p, -, rfl⟩ := h
  split <;> simp

/-- A move that keeps the identity of the iterator. -/
lemma moveIterator_effect {i k : ℕ} {m : IteratorMethod} {h : LevelDBIterator} {it : Iterator}
    {moved : Option Iterator} (hi : s.iterators[i]? = some h) (hk : refIdx h.ref = some k)
    (hit : s.native.iterators.get k = some it)
    (hid : ∀ it', moved = some it' → it'.id = it.id ∧ it'.slot = it.slot ∧ it'.dbId = it.dbId) :
    Effect s (.iterator i m) { s with native := (moveIterator s.native h.ref it moved).2 } := by
  unfold moveIterator
  split
  · cases moved with
    | none => exact Effect.of_native_eq _ rfl
    | some it' =>
      obtain ⟨h₁, h₂, h₃⟩ := hid it' rfl
      dsimp only
      rw [slotOf_of_refIdx hk]
      exact Effect.moved i k m h it it' hi hk hit h₁ h₂ h₃
  · exact Effect.of_native_eq _ rfl

lemma readEntry_snd (w : World) (it : Iterator) (read : Bytes × Bytes → JsValue) :
    (readEntry w it read).2 = w := by
  unfold readEntry
  split
  · split <;> rfl
  · rfl

/-- A method that only reads the iterator changes nothing. -/
lemma withIterator_read_snd {w : World} {fn : HostFn} {ref : JsValue}
    {act : Iterator → Outcome × World} (hact : ∀ it, (act it).2 = w) :
    (withIterator w fn ref act).2 = w := by
  obtain h | ⟨_, it, _, _, h⟩ := withIterator_cases w fn ref act <;> rw [h]
  exact hact it

/-- Of the methods of an iterator only `close` and the moves change anything, and that in its own
slot. -/
lemma iteratorCall_effect (s : Process) (faults : Faults) (i : ℕ) (h : LevelDBIterator)
    (m : IteratorMethod) (hi : s.iterators[i]? = some h) :
    Effect s (.iterator i m) (s.iteratorCall faults i h m).2 := by
  -- the moves share the lookup: a null pointer ends the call, else the iterator is moved
  have hmove : ∀ (fn : HostFn) (moved : Iterator → Option Iterator),
      (∀ it it', moved it = some it' → it'.id = it.id ∧ it'.slot = it.slot ∧ it'.dbId = it.dbId) →
      Effect s (.iterator i m) { s with native :=
        (withIterator s.native fn h.ref fun it => moveIterator s.native h.ref it (moved it)).2 } := by
    intro fn moved hmoved
    obtain hw | ⟨k, it, hk, hit, hw⟩ := withIterator_cases s.native fn h.ref
        (fun it => moveIterator s.native h.ref it (moved it)) <;> rw [hw]
    · exact Effect.of_native_eq _ rfl
    · exact moveIterator_effect hi hk hit (hmoved it)
  cases m with
  | seekToFirst =>
    refine hmove _ (fun it => some (it.seekToFirst (faults.moves 0))) fun it it' hit' => ?_
    cases hit'
    simp [Iterator.seekToFirst]
  | seekLast =>
    refine hmove _ (fun it => some (it.seekToLast (faults.moves 0))) fun it it' hit' => ?_
    cases hit'
    simp [Iterator.seekToLast]
  | seek target =>
    dsimp only [iteratorCall, forwardAs]
    obtain hw | ⟨k, it, hk, hit, hw⟩ := withIterator_cases s.native .leveldbIteratorSeek h.ref _ <;>
      rw [leveldbIteratorSeek, hw]
    · exact Effect.of_native_eq _ rfl
    · split
      · exact Effect.of_native_eq _ rfl
      · refine moveIterator_effect hi hk hit fun it' hit' => ?_
        cases hit'
        simp [Iterator.seek]
  | valid => exact Effect.of_native_eq _ (withIterator_read_snd fun _ => rfl)
  | next => exact hmove _ (fun it => it.next (faults.moves 0)) fun _ _ => Iterator.next_id
  | prev => exact hmove _ (fun it => it.prev (faults.moves 0)) fun _ _ => Iterator.prev_id
  | close =>
    dsimp only [iteratorCall]
    obtain hw | ⟨k, it, hk, hit, hw⟩ :=
        withIterator_cases s.native .leveldbIteratorDelete h.ref _ <;>
      rw [leveldbIteratorDelete, hw]
    · exact Effect.of_native_eq _ rfl
    · by_cases hdb : s.native.hasDb it = true
      · rw [if_pos hdb, slotOf_of_refIdx hk]
        exact Effect.closedIterator i k h it hi hk hit
      · rw [if_neg hdb]
        exact Effect.of_native_eq _ rfl
  | keyStr => exact Effect.of_native_eq _ (withIterator_read_snd fun it => readEntry_snd _ it _)
  | keyBuf => exact Effect.of_native_eq _ (withIterator_read_snd fun it => readEntry_snd _ it _)
  | valueStr => exact Effect.of_native_eq _ (withIterator_read_snd fun it => readEntry_snd _ it _)
  | valueBuf => exact Effect.of_native_eq _ (withIterator_read_snd fun it => readEntry_snd _ it _)
  | compareKey target =>
    -- its checks come in another order, but it reads only
    refine Effect.of_native_eq _ ?_
    unfold leveldbIteratorKeyCompare
    split
    · rfl
    · split
      · rfl
      · exact readEntry_snd _ _ _

/-- A new batch takes a slot that was empty. -/
lemma newWriteBatch_effect (s : Process) : Effect s .newWriteBatch s.newWriteBatch.2 := by
  have hget := SlotTable.get_alloc s.native.batches { id := s.native.nextId, ops := [] }
    (s.native.batches.alloc { id := s.native.nextId, ops := [] }).1
  rw [if_pos rfl] at hget
  dsimp only [newWriteBatch, leveldbNewWriteBatch]
  rw [refIdx_natCast, Option.bind_some, hget]
  exact Effect.newBatch

lemma batchClose_effect (s : Process) (i : ℕ) (h : LevelDBWriteBatch)
    (hi : s.batches[i]? = some h) : Effect s (.batchClose i) (s.batchClose i h).2 := by
  unfold batchClose
  obtain ⟨e, hw⟩ | ⟨k, b, hk, hb, hw⟩ :=
      withBatch_cases s.native .leveldbWriteBatchClose h.ref _ <;>
    rw [leveldbWriteBatchClose, hw]
  · exact Effect.of_native_eq _ rfl
  · rw [slotOf_of_refIdx hk, hb]
    exact Effect.closedBatch i k h b hi hk hb

/-- An operation is appended to the batch behind the reference. -/
lemma batchPut_effect (s : Process) (i : ℕ) (h : LevelDBWriteBatch) (k v : JsValue)
    (hi : s.batches[i]? = some h) :
    Effect s (.batchPut i k v) { s with native := (leveldbWriteBatchPut s.native h.ref k v).2 } := by
  obtain ⟨e, hw⟩ | ⟨j, b, hj, hb, hw⟩ :=
      withBatch_cases s.native .leveldbWriteBatchPut h.ref _ <;>
    rw [leveldbWriteBatchPut, hw]
  · exact Effect.of_native_eq _ rfl
  · split
    · next key value _ _ =>
      rw [appendOp, slotOf_of_refIdx hj]
      exact Effect.appended _ i j h b (.put key value) (Or.inl ⟨k, v, rfl⟩) hi hj hb
    · exact Effect.of_native_eq _ rfl

lemma batchDelete_effect (s : Process) (i : ℕ) (h : LevelDBWriteBatch) (k : JsValue)
    (hi : s.batches[i]? = some h) :
    Effect s (.batchDelete i k)
      { s with native := (leveldbWriteBatchDelete s.native h.ref k).2 } := by
  obtain ⟨e, hw⟩ | ⟨j, b, hj, hb, hw⟩ :=
      withBatch_cases s.native .leveldbWriteBatchDelete h.ref _ <;>
    rw [leveldbWriteBatchDelete, hw]
  · exact Effect.of_native_eq _ rfl
  · split
    · next key _ =>
      rw [appendOp, slotOf_of_refIdx hj]
      exact Effect.appended _ i j h b (.delete key) (Or.inr ⟨k, rfl⟩) hi hj hb
    · exact Effect.of_native_eq _ rfl

/-- A method called on a number no wrapper has does nothing. -/
lemma on_effect {α : Type} {wrappers : List α} {i : ℕ} {c : Call}
    {method : α → Outcome × Process} (h : ∀ a, wrappers[i]? = some a → Effect s c (method a).2) :
    Effect s c (s.on wrappers i method).2 := by
  unfold on
  split
  · exact Effect.refl s c
  · next a ha => exact h a ha

/-- **Every call has one of the listed effects.** -/
theorem step_effect (s : Process) (c : Call) (faults : Faults) :
    Effect s c (s.step (c, faults)).2 := by
  cases c with
  | newLevelDB name c e => exact newLevelDB_effect s faults name c e
  | close i => exact on_effect fun h hi => close_effect s i h hi
  | closed i => exact on_effect fun _ _ => Effect.refl s _
  | put i k v =>
    exact on_effect fun h hi => Effect.of_stored (u := h.toHandle) _ (by simp [Call.uses, hi])
      (leveldbPut_stored s.native faults h.ref k v)
  | delete i k =>
    exact on_effect fun h hi => Effect.of_stored (u := h.toHandle) _ (by simp [Call.uses, hi])
      (leveldbDelete_stored s.native faults h.ref k)
  | getStr i k =>
    exact on_effect fun h _ => Effect.of_native_eq _ (getValue_snd s.native faults _ _ h.ref k)
  | getBuf i k =>
    exact on_effect fun h _ => Effect.of_native_eq _ (getValue_snd s.native faults _ _ h.ref k)
  | newIterator i => exact on_effect fun h hi => newIterator_effect s i h hi
  | write i j =>
    exact on_effect fun h hi => on_effect fun b _ =>
      Effect.of_stored (u := h.toHandle) _ (by simp [Call.uses, hi])
        (leveldbWriteWriteBatch_stored s.native faults h.ref b.ref)
  | merge i j batchMerge =>
    refine on_effect fun h hi => on_effect fun src _ => ?_
    unfold merge
    -- `index.ts` checks both references itself
    split
    · exact Effect.refl s _
    · split
      · exact Effect.refl s _
      · exact Effect.of_stored (u := h.toHandle) _ (by simp [Call.uses, hi])
          (leveldbMerge_stored s.native faults h.ref src.ref _)
  | destroyDB name force => exact destroyDB_effect s faults name force
  | iterator i m => exact on_effect fun h hi => iteratorCall_effect s faults i h m hi
  | newWriteBatch => exact newWriteBatch_effect s
  | batchPut i k v => exact on_effect fun h hi => batchPut_effect s i h k v hi
  | batchDelete i k => exact on_effect fun h hi => batchDelete_effect s i h k hi
  | batchClose i => exact on_effect fun h hi => batchClose_effect s i h hi

end Process

end RnLeveldb
