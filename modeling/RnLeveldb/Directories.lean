import RnLeveldb.Invariant

/-!
# One open instance per directory

Three notions of identity meet when a database is opened: `openRefs` is keyed by the name, the
lock of LevelDB by the path string, and the files by the directory that path leads to. The
names `a` and `./a` differ in the first two and agree in the third, so neither check sees that
the directory is in use.

As long as every directory in use is only named by the path it was opened under
(`SpelledAlike`), the three coincide: no two open databases share a directory, and
`destroyDB` does not remove one that is open.
-/

namespace RnLeveldb

/-! ## The native side -/

namespace World

variable {w w' : World}

/-- Whoever has the directory of `path` open has opened it under that very path. -/
def SpelledAs (w : World) (path : Bytes) : Prop :=
  ∀ (i : ℕ) (db : Db), w.dbs.get i = some db → db.dir = resolve path → db.path = path

/-- No two slots are on one directory. -/
def OnePerDir (w : World) : Prop :=
  ∀ (i j : ℕ) (db db' : Db), w.dbs.get i = some db → w.dbs.get j = some db' →
    db.dir = db'.dir → i = j

/-- Open databases are on directories of their own, whose locks they hold and whose files are
there. -/
structure DirsOk (w : World) : Prop where
  onePerDir : w.OnePerDir
  locked : ∀ (i : ℕ) (db : Db), w.dbs.get i = some db → lockFileName db.path ∈ w.locks
  onDisk : ∀ (i : ℕ) (db : Db), w.dbs.get i = some db → w.disk db.dir ≠ none

/-- A path whose lock is free leads to a directory that is not in use. -/
lemma DirsOk.dir_ne (h : w.DirsOk) {path : Bytes} (hs : w.SpelledAs path)
    (hlock : lockFileName path ∉ w.locks) {i : ℕ} {db : Db} (hdb : w.dbs.get i = some db) :
    db.dir ≠ resolve path := by
  intro hdir
  apply hlock
  rw [← hs i db hdb hdir]
  exact h.locked i db hdb

/-- Neither the open databases nor the locks change, and none of their files goes. -/
lemma DirsOk.congr (h : w.DirsOk) (hget : ∀ i, w'.dbs.get i = w.dbs.get i)
    (hlocks : w'.locks = w.locks)
    (hdisk : ∀ (i : ℕ) (db : Db), w.dbs.get i = some db → w'.disk db.dir ≠ none) :
    w'.DirsOk where
  onePerDir := by
    intro i j db db' hi hj hdir
    rw [hget] at hi hj
    exact h.onePerDir i j db db' hi hj hdir
  locked := by
    intro i db hi
    rw [hget] at hi
    rw [hlocks]
    exact h.locked i db hi
  onDisk := by
    intro i db hi
    rw [hget] at hi
    exact hdisk i db hi

/-- A database is opened on a directory that is not in use. -/
lemma DirsOk.push (h : w.DirsOk) {db : Db} {content : Content}
    (hfree : ∀ (i : ℕ) (db' : Db), w.dbs.get i = some db' → db'.dir ≠ db.dir)
    (hdbs : w'.dbs = w.dbs.push (some db)) (hlocks : w'.locks = lockFileName db.path :: w.locks)
    (hdisk : w'.disk = Function.update w.disk db.dir (some content)) : w'.DirsOk where
  onePerDir := by
    intro i j db₁ db₂ hi hj hdir
    rw [hdbs, SlotTable.get_push] at hi hj
    -- one of two slots on a directory would be the new one
    split at hi
    · next hi' =>
      cases hi
      split at hj
      · next hj' => exact hi'.trans hj'.symm
      · exact absurd hdir.symm (hfree j db₂ hj)
    · split at hj
      · cases hj
        exact absurd hdir (hfree i db₁ hi)
      · exact h.onePerDir i j db₁ db₂ hi hj hdir
  locked := by
    intro i db₁ hi
    rw [hdbs, SlotTable.get_push] at hi
    rw [hlocks]
    split at hi
    · cases hi
      exact List.mem_cons_self
    · exact List.mem_cons_of_mem _ (h.locked i db₁ hi)
  onDisk := by
    intro i db₁ hi
    rw [hdbs, SlotTable.get_push] at hi
    rw [hdisk]
    split at hi
    · cases hi
      simp
    · rw [Function.update_of_ne (hfree i db₁ hi)]
      exact h.onDisk i db₁ hi

/-- Closing a database releases its own lock and no other. -/
lemma DirsOk.closeSlot (h : w.DirsOk) {k : ℕ} {db : Db} (hdb : w.dbs.get k = some db) :
    (w.closeSlot k db).DirsOk where
  onePerDir := by
    intro i j db₁ db₂ hi hj hdir
    dsimp only [World.closeSlot] at hi hj
    rw [SlotTable.get_reset] at hi hj
    split at hi
    · cases hi
    · split at hj
      · cases hj
      · exact h.onePerDir i j db₁ db₂ hi hj hdir
  locked := by
    intro i db₁ hi
    dsimp only [World.closeSlot] at hi ⊢
    rw [SlotTable.get_reset] at hi
    split at hi
    · cases hi
    · next hik =>
      rw [List.mem_filter]
      refine ⟨h.locked i db₁ hi, ?_⟩
      rw [decide_eq_true_iff, Ne, lockFileName_inj]
      intro hpath
      -- the same path would be the same directory
      exact hik (h.onePerDir i k db₁ db hi hdb (congrArg resolve hpath))
  onDisk := by
    intro i db₁ hi
    dsimp only [World.closeSlot] at hi ⊢
    rw [SlotTable.get_reset] at hi
    split at hi
    · cases hi
    · exact h.onDisk i db₁ hi

/-- The open databases keep their files when a directory that is not in use is destroyed. -/
lemma DirsOk.destroy (h : w.DirsOk) {path : Bytes} (hs : w.SpelledAs path)
    (hlock : lockFileName path ∉ w.locks) (rest : Option Content) :
    DirsOk { w with disk := Function.update w.disk (resolve path) rest } := by
  refine h.congr (fun _ => rfl) rfl ?_
  intro i db hdb
  dsimp only
  rw [Function.update_of_ne (h.dir_ne hs hlock hdb)]
  exact h.onDisk i db hdb

lemma SpelledAs.closeSlot {path : Bytes} (hs : w.SpelledAs path) (k : ℕ) (db : Db) :
    (w.closeSlot k db).SpelledAs path := by
  intro i db' hi hdir
  dsimp only [World.closeSlot] at hi
  rw [SlotTable.get_reset] at hi
  split at hi
  · cases hi
  · exact hs i db' hi hdir

/-- `leveldbDestroy` on the path of an open database fails at its lock. -/
lemma DirsOk.leveldbDestroy_eq (h : w.DirsOk) {name : JsString} {i : ℕ} {db : Db}
    (hdb : w.dbs.get i = some db) (hpath : db.path = w.documentDir ++ utf8 name) (f : Faults) :
    leveldbDestroy w f (.string name) =
      (.throw (.host .leveldbDestroy (.status (lockHeld db.path))), w) := by
  have hdisk : w.disk (resolve db.path) ≠ none := h.onDisk i db hdb
  obtain ⟨content, hcontent⟩ := Option.ne_none_iff_exists'.mp hdisk
  have hdestroy : w.destroyDb f db.path = (.fail (lockHeld db.path), w) := by
    unfold World.destroyDb
    rw [hcontent]
    dsimp only
    rw [if_pos (h.locked i db hdb)]
  unfold leveldbDestroy
  dsimp only
  rw [← hpath, hdestroy]

end World

/-! ## Runs -/

namespace Process

variable {s s' : Process} {c : Call}

/-- A directory that is in use is named by the path it was opened under, both where a
database may be opened on it and where it is to be destroyed. With `errorIfExists` nothing is
opened on a directory in use anyway. -/
def SpelledAlike (s : Process) : Call × Faults → Prop
  | (.newLevelDB name _ errorIfExists, _) =>
    errorIfExists = false → s.native.SpelledAs (s.pathOf name)
  | (.destroyDB name _, _) => s.native.SpelledAs (s.pathOf name)
  | _ => True

/-- `destroyDB(name)` without force throws and removes nothing if some open database is on
the directory of `name`. -/
def DestroyRefused (s : Process) (x : Call × Faults) : Prop :=
  ∀ (name : JsString) (f : Faults), x = (.destroyDB name false, f) →
    (∃ (i : ℕ) (db : Db), s.native.dbs.get i = some db ∧ db.dir = resolve (s.pathOf name)) →
    ∃ e, s.step x = (.throw e, s)

theorem dirsOk_effect {f : Faults} (h : s.native.DirsOk) (hs : s.SpelledAlike (c, f))
    (heff : Effect s c s') : s'.native.DirsOk := by
  cases heff with
  | stored c disk hdisk =>
    exact h.congr (fun _ => rfl) rfl fun i db hdb => hdisk _ (h.onDisk i db hdb)
  | openFailed =>
    exact h.congr (fun i => SlotTable.get_push_none _ i) rfl h.onDisk
  | opened name _ errorIfExists content href hlock hexists =>
    refine h.push ?_ rfl rfl rfl
    intro i db hdb
    cases errorIfExists with
    | false => exact h.dir_ne (hs rfl) hlock hdb
    | true =>
      -- the directory has been found empty
      intro hdir
      apply h.onDisk i db hdb
      rw [hdir]
      exact hexists rfl
  | closed i k w db hi hk hdb => exact h.closeSlot hdb
  | destroyed name force rest href hlock => exact h.destroy hs hlock rest
  | forceClosed name ref k db disk href hk hdb hdisk =>
    have hclosed := h.closeSlot hdb
    rcases hdisk with rfl | ⟨hlock, rest, rfl⟩
    · exact hclosed
    · exact hclosed.destroy (hs.closeSlot k db) hlock rest
  | shared | newIterator | moved | closedIterator | newBatch | appended | closedBatch =>
    exact h.congr (fun _ => rfl) rfl h.onDisk

lemma dirsOk_step (s : Process) (x : Call × Faults) (h : s.native.DirsOk)
    (hs : s.SpelledAlike x) : (s.step x).2.native.DirsOk :=
  dirsOk_effect h hs (step_effect s x.1 x.2)

lemma dirsOk_start (disk : Dir → Option Content) (documentDir : Bytes) :
    (start disk documentDir).native.DirsOk where
  onePerDir := by
    intro i j db db' hi
    cases hi
  locked := by
    intro i db hi
    cases hi
  onDisk := by
    intro i db hi
    cases hi

lemma destroyRefused_of_dirsOk (h : s.native.DirsOk) (x : Call × Faults)
    (hs : s.SpelledAlike x) : s.DestroyRefused x := by
  rintro name f rfl ⟨i, db, hdb, hdir⟩
  dsimp only [step, destroyDB]
  cases href : openRef s.openRefs name with
  -- refused by `index.ts`
  | some ref => exact ⟨_, rfl⟩
  -- not known under this name: refused at the lock
  | none =>
    have hpath : db.path = s.pathOf name := hs i db hdb hdir
    refine ⟨.host .leveldbDestroy (.status (World.lockHeld db.path)), ?_⟩
    dsimp only
    rw [h.leveldbDestroy_eq hdb hpath]
    rfl

/-- **One open instance per directory.** In a run in which directories in use are named by
the paths they were opened under, no state has two open databases on one directory, and no
`destroyDB` without force removes one that is open. -/
theorem one_instance_per_directory (disk : Dir → Option Content) (documentDir : Bytes)
    (cs : List (Call × Faults))
    (h : Machine.Along step SpelledAlike (start disk documentDir) cs) :
    (Machine.run step (start disk documentDir) cs).native.OnePerDir ∧
    Machine.Along step (fun s x => s.native.OnePerDir ∧ s.DestroyRefused x)
      (start disk documentDir) cs := by
  have h0 := dirsOk_start disk documentDir
  constructor
  · have hrun : (Machine.run step (start disk documentDir) cs).native.DirsOk :=
      Machine.inv_run_of_along dirsOk_step h0 h
    exact hrun.onePerDir
  · refine Machine.along_of_inv dirsOk_step ?_ h0 h
    intro s x hs hx
    exact ⟨hs.onePerDir, destroyRefused_of_dirsOk hs x hx⟩

/-- A directory is opened, left alone by a `destroyDB` and closed; then it is opened again,
under another spelling. -/
theorem one_instance_per_directory_respelled :
    Machine.Along step (fun s x => s.native.OnePerDir ∧ s.DestroyRefused x)
      (start (fun _ => none) (ascii "/d"))
      [(.newLevelDB [0x61] true false, {}), (.destroyDB [0x61] false, {}), (.close 0, {}),
        (.newLevelDB [0x2E, 0x2F, 0x61] true false, {})] := by
  have hspelled : Machine.Along step SpelledAlike (start (fun _ => none) (ascii "/d"))
      [(.newLevelDB [0x61] true false, {}), (.destroyDB [0x61] false, {}), (.close 0, {}),
        (.newLevelDB [0x2E, 0x2F, 0x61] true false, {})] := by
    refine ⟨fun _ => ?_, ?_, trivial, fun _ => ?_, trivial⟩
    · intro i db hi
      cases hi
    · intro i db hi hdir
      cases i with
      | zero =>
        cases hi
        rfl
      | succ i => cases hi
    · intro i db hi
      cases i with
      | zero => cases hi
      | succ i => cases hi
  exact (one_instance_per_directory (fun _ => none) (ascii "/d") _ hspelled).2

/-- With `a` open, `./a` is opened on the same directory; and `destroyDB` of `./a` returns,
with the files gone. -/
theorem two_instances_on_one_directory :
    ¬ (afterCalls [.newLevelDB [0x61] true false,
      .newLevelDB [0x2E, 0x2F, 0x61] true false]).native.OnePerDir ∧
    ¬ (afterCalls [.newLevelDB [0x61] true false]).DestroyRefused
      (.destroyDB [0x2E, 0x2F, 0x61] false, {}) := by
  constructor
  · intro h
    have hslots : 0 = 1 := h 0 1 _ _ rfl rfl (by decide +kernel)
    cases hslots
  · intro h
    obtain ⟨e, he⟩ := h _ _ rfl ⟨0, _, rfl, by decide +kernel⟩
    cases congrArg Prod.fst he

end Process

end RnLeveldb
