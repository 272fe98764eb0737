import RnLeveldb.Invariant

/-!
# The registry of open databases

Within one installation `openRefs` is accurate in every state an application reaches: it
lists the open databases, one index for each, and `closed()` tells whether the database a
wrapper was constructed on has been closed since.

The second part is about the past of a run. `ClosesDb` is a call that closes a database, and
`Machine.Once` says that there was one; `closeHistory` relates both to the slots.
-/

namespace RnLeveldb

namespace Process

variable {s : Process} {x : Call × Faults} {name : JsString} {o : ℕ}

/-! ## Single calls -/

/-- A close throws and nothing happens, or it empties the slot of the wrapper. -/
lemma step_close_cases {i : ℕ} {h : LevelDB} (hi : s.dbs[i]? = some h) (f : Faults) :
    (∃ e, s.step (.close i, f) = (.throw e, s)) ∨
      ∃ k db, refIdx h.ref = some k ∧ s.native.dbs.get k = some db ∧
        (s.step (.close i, f)).1 = .ret .undefined [⟨.db, db.id⟩] ∧
        (s.step (.close i, f)).2.native.dbs = s.native.dbs.reset k := by
  have hstep : s.step (.close i, f) = s.close i h := by
    dsimp only [step, on]
    rw [hi]
  rw [hstep]
  unfold close
  obtain ⟨e, hc⟩ | ⟨k, db, hk, hdb, hc⟩ := leveldbClose_cases s.native h.ref
  · rw [hc]
    exact Or.inl ⟨e, rfl⟩
  · rw [hc]
    exact Or.inr ⟨k, db, hk, hdb, rfl, rfl⟩

/-- A forced destroy of a name that is bound empties the slot of the name. -/
lemma step_forceClose (hrefs : s.RefsOk) {ref : JsValue} (href : openRef s.openRefs name = some ref)
    (f : Faults) :
    ∃ (k : ℕ) (db : Db), ref = .number k ∧ s.native.dbs.get k = some db ∧ db.name = name ∧
      (s.step (.destroyDB name true, f)).2.native.dbs = s.native.dbs.reset k := by
  obtain ⟨k, db, hk, hdb, hname⟩ := hrefs.bound _ (mem_of_openRef href)
  dsimp only at hk hname
  subst hk
  refine ⟨k, db, rfl, hdb, hname, ?_⟩
  show (s.destroyDB f name true).2.native.dbs = _
  unfold destroyDB
  rw [href]
  dsimp only
  rw [if_pos rfl, leveldbClose_of_get (refIdx_natCast k) hdb]
  dsimp only [forwardAs]
  obtain h | ⟨-, rest, h⟩ := leveldbDestroy_cases (s.native.closeSlot k db) f name <;> rw [h] <;> rfl

/-- What a constructor that returns hands out: a reference to the database of its name. -/
lemma step_newLevelDB_ret (hrefs : s.RefsOk) {c e : Bool} {f : Faults} {v : JsValue}
    {on : List Obj} (hret : (s.step (.newLevelDB name c e, f)).1 = .ret v on) :
    ∃ (h : LevelDB) (k : ℕ) (db : Db),
      (s.step (.newLevelDB name c e, f)).2.dbs = s.dbs ++ [h] ∧ h.name = name ∧
      h.ref = .number k ∧
      (s.step (.newLevelDB name c e, f)).2.native.dbs.get k = some db ∧ db.name = name ∧
      h.obj = some db.id := by
  have hstep : s.step (.newLevelDB name c e, f) = s.newLevelDB f name c e := rfl
  rw [hstep] at hret ⊢
  unfold newLevelDB at hret ⊢
  split at hret
  · cases hret
  · next herr =>
    split at hret
    · -- the index comes from `openRefs`, so its slot is that of the name
      next ref href =>
      obtain ⟨k, db, hk, hdb, hname⟩ := hrefs.bound _ (mem_of_openRef href)
      dsimp only at hk hname
      subst hk
      refine ⟨_, k, db, rfl, rfl, rfl, hdb, hname, ?_⟩
      simp only [dbAt, refIdx_natCast, Option.bind_some, hdb, Option.map_some]
    · next href =>
      obtain ⟨f', ho⟩ | ⟨hlock, -, content, ho⟩ := leveldbOpen_cases s.native f name c e
      · rw [ho] at hret
        cases hret
      · rw [ho]
        dsimp only
        refine ⟨_, s.native.dbs.size,
          { id := s.native.nextId, name := name, path := s.pathOf name }, rfl, rfl, rfl, ?_, rfl, ?_⟩
        · rw [SlotTable.get_push, if_pos rfl]
          rfl
        · simp only [dbAt, refIdx_natCast, Option.bind_some, SlotTable.get_push, if_true,
            Option.map_some]

/-- Every handle means in `s'` what it means in `s`. -/
structure SameHandles (s s' : Process) : Prop where
  openRefs : s'.openRefs = s.openRefs
  dbs : s'.dbs = s.dbs
  iterators : s'.iterators = s.iterators
  batches : s'.batches = s.batches
  nativeDbs : ∀ i, s'.native.dbs.get i = s.native.dbs.get i
  nativeIterators : ∀ i, s'.native.iterators.get i = s.native.iterators.get i
  nativeBatches : ∀ i, s'.native.batches.get i = s.native.batches.get i

lemma SameHandles.of_eq {s' : Process} (h : s' = s) : SameHandles s s' := by
  subst h
  exact ⟨rfl, rfl, rfl, rfl, fun _ => rfl, fun _ => rfl, fun _ => rfl⟩

lemma newLevelDB_throw {c e : Bool} {f : Faults} {err : JsError}
    (hthrow : (s.newLevelDB f name c e).1 = .throw err) :
    SameHandles s (s.newLevelDB f name c e).2 := by
  unfold newLevelDB at hthrow ⊢
  split at hthrow
  · exact SameHandles.of_eq rfl
  · split at hthrow
    · cases hthrow
    · obtain ⟨f', ho⟩ | ⟨-, -, content, ho⟩ := leveldbOpen_cases s.native f name c e
      · -- the empty slot that is pushed answers every index as before
        rw [ho]
        exact ⟨rfl, rfl, rfl, rfl, fun i => SlotTable.get_push_none _ i, fun _ => rfl,
          fun _ => rfl⟩
      · rw [ho] at hthrow
        cases hthrow

lemma step_close_throw {i : ℕ} {f : Faults} {err : JsError}
    (hthrow : (s.step (.close i, f)).1 = .throw err) : (s.step (.close i, f)).2 = s := by
  cases hi : s.dbs[i]? with
  | none =>
    dsimp only [step, on]
    rw [hi]
  | some h =>
    obtain ⟨e', hs⟩ | ⟨k, db, -, -, hret, -⟩ := step_close_cases hi f
    · rw [hs]
    · rw [hret] at hthrow
      cases hthrow

/-! ## `openRefs` and `closed` -/

lemma openRef_of_mem (hrefs : s.RefsOk) {e : JsString × JsValue} (he : e ∈ s.openRefs) :
    openRef s.openRefs e.1 = some e.2 := by
  cases h : openRef s.openRefs e.1 with
  | none => exact absurd rfl (openRef_eq_none.mp h e he)
  | some ref =>
    have heq := List.inj_on_of_nodup_map hrefs.names (mem_of_openRef h) he rfl
    rw [← heq]

/-- The reference of an index is listed exactly when its slot is not empty. -/
lemma mem_openRefs_iff (hrefs : s.RefsOk) {k : ℕ} :
    (∃ e ∈ s.openRefs, e.2 = .number k) ↔ s.native.dbs.get k ≠ none := by
  constructor
  · rintro ⟨e, he, hek⟩
    obtain ⟨i, db, hi, hdb, -⟩ := hrefs.bound e he
    rw [hi] at hek
    cases hek
    simp [hdb]
  · intro hne
    obtain ⟨db, hdb⟩ := Option.ne_none_iff_exists'.mp hne
    exact ⟨_, hrefs.listed hdb, rfl⟩

/-- Two names are not bound to one index. -/
lemma openRef_inj (hrefs : s.RefsOk) {a b : JsString} {ref : JsValue}
    (ha : openRef s.openRefs a = some ref) (hb : openRef s.openRefs b = some ref) : a = b := by
  obtain ⟨i, db, hi, hdb, hname⟩ := hrefs.bound _ (mem_of_openRef ha)
  obtain ⟨j, db', hj, hdb', hname'⟩ := hrefs.bound _ (mem_of_openRef hb)
  dsimp only at hi hj hname hname'
  rw [hi] at hj
  cases hj
  rw [hdb] at hdb'
  cases hdb'
  exact hname.symm.trans hname'

/-- `closed()` tells whether the database the wrapper was constructed on is gone. -/
lemma closed_iff (hrefs : s.RefsOk) {h : LevelDB} (hok : DbHandleOk s.native h o) :
    s.closed h = true ↔ ¬ s.native.dbs.Live Db.id o := by
  have htr := hok.holder.tracks
  -- a wrapper through which the database was closed has no reference any more
  rcases hok.ref with hu | ⟨i, hi⟩
  · rw [hu] at htr
    simp only [closed, hu, if_true, true_iff]
    exact htr
  · rw [hi, refIdx_natCast] at htr
    rw [htr.live_iff, ← mem_openRefs_iff hrefs]
    simp [closed, hi]

/-! ## Closing in a run -/

/-- The call closes the database of identity `o`, opened for `name`: through a wrapper that
was constructed on it, or by a forced destroy of the name. -/
def ClosesDb (name : JsString) (o : ℕ) (s : Process) (x : Call × Faults) : Prop :=
  (∃ (i : ℕ) (h : LevelDB) (v : JsValue) (on : List Obj), x.1 = .close i ∧
    s.dbs[i]? = some h ∧ h.name = name ∧ h.obj = some o ∧ (s.step x).1 = .ret v on) ∨
  x.1 = .destroyDB name true ∧ ∃ (ref : JsValue) (db : Db),
    openRef s.openRefs name = some ref ∧ dbAt s.native ref = some db ∧ db.id = o

lemma Installed.dbHandle (h : s.Installed) {w : LevelDB} (hw : w ∈ s.dbs) :
    ∃ o, DbHandleOk s.native w o :=
  h.inv.dbs.handles w hw (h.current.dbs w hw)

/-- The wrapper a close empties a slot through belongs to the current generation. -/
lemma Inv.dbHandle_of_close (h : s.Inv) {i k : ℕ} {w : LevelDB} {db : Db}
    (hcur : s.UsesCurrent (.close i)) (hi : s.dbs[i]? = some w) (hk : refIdx w.ref = some k)
    (hdb : s.native.dbs.get k = some db) : ∃ o, DbHandleOk s.native w o := by
  refine h.dbs.handles w (List.mem_of_getElem? hi) ?_
  have huse : (Kind.db, w.toHandle) ∈ (Call.close i).uses s := by simp [Call.uses, hi]
  exact hcur.gen_eq huse (by simp [World.objAt, hk, hdb])

/-- What is closed was live before the call and is not afterwards. -/
lemma ClosesDb.live (h : s.Inv) (hcur : s.UsesCurrent x.1) (hc : ClosesDb name o s x) :
    s.native.dbs.Live Db.id o ∧ ¬ (s.step x).2.native.dbs.Live Db.id o := by
  obtain ⟨c, f⟩ := x
  obtain ⟨i, w, v, on, hci, hi, hname, hobj, hret⟩ | ⟨hcd, ref, db, href, hdb, hid⟩ := hc
  · dsimp only at hci
    subst hci
    obtain ⟨e, hs⟩ | ⟨k, db, hk, hdb, -, hdbs⟩ := step_close_cases hi f
    · rw [hs] at hret
      cases hret
    · obtain ⟨o', hok⟩ := h.dbHandle_of_close hcur hi hk hdb
      have hoo : o' = o := Option.some.inj (hok.obj.symm.trans hobj)
      subst hoo
      have htr := hok.holder.tracks
      rw [hk] at htr
      refine ⟨htr.live_iff.mpr (by simp [hdb]), ?_⟩
      rw [hdbs]
      exact htr.reset_self
  · dsimp only at hcd
    subst hcd
    obtain ⟨k, db', hk, hdb', -, hdbs⟩ := step_forceClose h.refs href f
    rw [hk, dbAt, refIdx_natCast, Option.bind_some, hdb'] at hdb
    cases hdb
    subst hid
    refine ⟨⟨k, _, hdb', rfl⟩, ?_⟩
    rw [hdbs]
    exact (h.dbs.ids.tracks hdb').reset_self

/-- A database that is gone after a call has been closed by it. -/
lemma live_or_closesDb (h : s.Inv) (hcur : s.UsesCurrent x.1) {db : Db} {k : ℕ}
    (hdb : s.native.dbs.get k = some db) :
    (s.step x).2.native.dbs.get k = some db ∨ ClosesDb db.name db.id s x := by
  obtain ⟨c, f⟩ := x
  have heff := step_effect s c f
  generalize hs' : (s.step (c, f)).2 = s' at heff
  cases heff with
  | openFailed => exact Or.inl (by rw [SlotTable.get_push_none]; exact hdb)
  | opened =>
    refine Or.inl ?_
    rw [SlotTable.get_push, if_neg (ne_of_lt (SlotTable.lt_size_of_get hdb))]
    exact hdb
  | closed i k' w db' hi hk' hdb' =>
    by_cases hkk : k = k'
    · refine Or.inr (Or.inl ?_)
      subst hkk
      rw [hdb] at hdb'
      cases hdb'
      obtain ⟨o, hok⟩ := h.dbHandle_of_close hcur hi hk' hdb
      have htr := hok.holder.tracks
      rw [hk'] at htr
      have ho : db.id = o := htr.get_id hdb
      obtain ⟨e, hs⟩ | ⟨_, _, _, _, hret, _⟩ := step_close_cases hi f
      · -- the step has changed the slot, so it has not thrown
        rw [hs] at hs'
        dsimp only at hs'
        have hgone := congrArg (fun s => s.native.dbs.get k) hs'
        dsimp only [World.closeSlot] at hgone
        rw [hdb, SlotTable.get_reset, if_pos rfl] at hgone
        cases hgone
      · exact ⟨i, w, _, _, rfl, hi, (hok.name hdb ho).symm, by rw [hok.obj, ho], hret⟩
    · refine Or.inl ?_
      show (s.native.dbs.reset k').get k = some db
      rw [SlotTable.get_reset, if_neg hkk]
      exact hdb
  | forceClosed name ref k' db' disk href hk' hdb' =>
    by_cases hkk : k = k'
    · refine Or.inr (Or.inr ?_)
      subst hkk
      rw [hdb] at hdb'
      cases hdb'
      -- the slot `openRefs` has for the name holds the database opened for it
      obtain ⟨i, db'', hi, hdb'', hname⟩ := h.refs.bound _ (mem_of_openRef href)
      dsimp only at hi hname
      rw [hi, refIdx_natCast] at hk'
      cases hk'
      rw [hdb] at hdb''
      cases hdb''
      subst hname
      exact ⟨rfl, ref, db, href, by rw [dbAt, hi, refIdx_natCast]; exact hdb, rfl⟩
    · refine Or.inl ?_
      show (s.native.dbs.reset k').get k = some db
      rw [SlotTable.get_reset, if_neg hkk]
      exact hdb
  | stored | shared | destroyed | newIterator | moved | closedIterator | newBatch | appended
  | closedBatch => exact Or.inl hdb

/-- A database that is in a slot after a call was there before, or is new. -/
lemma Effect.live_db {s' : Process} {c : Call} (heff : Effect s c s')
    (hlive : s'.native.dbs.Live Db.id o) :
    s.native.dbs.Live Db.id o ∨ s.native.nextId ≤ o := by
  obtain ⟨j, db, hj, rfl⟩ := hlive
  cases heff with
  | openFailed =>
    dsimp only at hj
    rw [SlotTable.get_push_none] at hj
    exact Or.inl ⟨j, db, hj, rfl⟩
  | opened =>
    dsimp only at hj
    rw [SlotTable.get_push] at hj
    split at hj
    · cases hj
      exact Or.inr le_rfl
    · exact Or.inl ⟨j, db, hj, rfl⟩
  | closed | forceClosed =>
    dsimp only [World.closeSlot] at hj
    rw [SlotTable.get_reset] at hj
    split at hj
    · cases hj
    · exact Or.inl ⟨j, db, hj, rfl⟩
  | stored | shared | destroyed | newIterator | moved | closedIterator | newBatch | appended
  | closedBatch => exact Or.inl ⟨j, db, hj, rfl⟩

/-- A wrapper keeps its number, its name and what it was constructed on. -/
lemma Effect.dbs_getElem? {s' : Process} {c : Call} (heff : Effect s c s') {i : ℕ} {h : LevelDB}
    (hi : s.dbs[i]? = some h) :
    ∃ h', s'.dbs[i]? = some h' ∧ h'.obj = h.obj ∧ h'.name = h.name := by
  obtain ⟨hlt, -⟩ := List.getElem?_eq_some_iff.mp hi
  cases heff with
  | opened | shared =>
    refine ⟨h, ?_, rfl, rfl⟩
    dsimp only
    rw [List.getElem?_append_left hlt]
    exact hi
  | closed j k w db hj =>
    dsimp only
    rw [List.getElem?_set]
    by_cases hji : j = i
    · subst hji
      rw [hi] at hj
      cases hj
      exact ⟨{ h with ref := .undefined }, by rw [if_pos rfl, if_pos hlt], rfl, rfl⟩
    · exact ⟨h, by rw [if_neg hji]; exact hi, rfl, rfl⟩
  | stored | openFailed | destroyed | forceClosed | newIterator | moved | closedIterator
  | newBatch | appended | closedBatch => exact ⟨h, hi, rfl, rfl⟩

/-- A wrapper was there before the call, or has just been constructed on an open database. -/
lemma Effect.mem_dbs {s' : Process} {c : Call} (heff : Effect s c s') (hrefs : s.RefsOk)
    {h' : LevelDB} (hmem : h' ∈ s'.dbs) :
    (∃ h ∈ s.dbs, h.obj = h'.obj ∧ h.gen = h'.gen ∧ h.name = h'.name) ∨
      ∃ o, h'.obj = some o ∧ h'.gen = s.native.gen ∧ s'.native.dbs.Live Db.id o := by
  cases heff with
  | opened name =>
    rcases List.mem_append.mp hmem with hmem | hmem
    · exact Or.inl ⟨h', hmem, rfl, rfl, rfl⟩
    · rw [List.mem_singleton.mp hmem]
      refine Or.inr ⟨_, rfl, rfl, s.native.dbs.size,
        { id := s.native.nextId, name := name, path := s.pathOf name }, ?_, rfl⟩
      dsimp only
      rw [SlotTable.get_push, if_pos rfl]
  | shared name _ _ ref href =>
    rcases List.mem_append.mp hmem with hmem | hmem
    · exact Or.inl ⟨h', hmem, rfl, rfl, rfl⟩
    · rw [List.mem_singleton.mp hmem]
      obtain ⟨i, db, hi, hdb, -⟩ := hrefs.bound _ (mem_of_openRef href)
      dsimp only at hi
      subst hi
      refine Or.inr ⟨db.id, ?_, rfl, i, db, hdb, rfl⟩
      simp only [dbAt, refIdx_natCast, Option.bind_some, hdb, Option.map_some]
  | closed j k w db hj =>
    rcases List.mem_or_eq_of_mem_set hmem with hmem | rfl
    · exact Or.inl ⟨h', hmem, rfl, rfl, rfl⟩
    · exact Or.inl ⟨w, List.mem_of_getElem? hj, rfl, rfl, rfl⟩
  | stored | openFailed | destroyed | forceClosed | newIterator | moved | closedIterator
  | newBatch | appended | closedBatch => exact Or.inl ⟨h', hmem, rfl, rfl, rfl⟩

/-- The counter of identities never goes back. -/
lemma Effect.nextId_le {s' : Process} {c : Call} (heff : Effect s c s') :
    s.native.nextId ≤ s'.native.nextId := by
  cases heff with
  | opened | newIterator | newBatch => exact Nat.le_succ _
  | stored | openFailed | shared | closed | destroyed | forceClosed | moved | closedIterator
  | appended | closedBatch => exact le_rfl

section History

variable (s₀ : Process)

/-- What the run so far says about the databases: one that is open has not been closed, one
a wrapper was constructed on and that is not open has been closed. -/
structure CloseHistory (cs : List (Call × Faults)) : Prop where
  open_not_closed : ∀ name o, (Machine.run step s₀ cs).native.dbs.Live Db.id o →
    ¬ Machine.Once step (ClosesDb name o) s₀ cs
  closed : ∀ h ∈ (Machine.run step s₀ cs).dbs, ∀ o, h.obj = some o →
    ¬ (Machine.run step s₀ cs).native.dbs.Live Db.id o →
    Machine.Once step (ClosesDb h.name o) s₀ cs
  lt : ∀ name o, Machine.Once step (ClosesDb name o) s₀ cs →
    o < (Machine.run step s₀ cs).native.nextId

variable {s₀}

lemma CloseHistory.snoc {cs : List (Call × Faults)} (hist : CloseHistory s₀ cs)
    (h : (Machine.run step s₀ cs).Installed) (x : Call × Faults) :
    CloseHistory s₀ (cs ++ [x]) := by
  have hrun := Machine.run_snoc step s₀ cs x
  have honce : ∀ name o, Machine.Once step (ClosesDb name o) s₀ (cs ++ [x]) ↔
      Machine.Once step (ClosesDb name o) s₀ cs ∨
        ClosesDb name o (Machine.run step s₀ cs) x :=
    fun name o => Machine.once_snoc step (ClosesDb name o) s₀ cs x
  have heff := step_effect (Machine.run step s₀ cs) x.1 x.2
  have hlt : ∀ {o}, (Machine.run step s₀ cs).native.dbs.Live Db.id o →
      o < (Machine.run step s₀ cs).native.nextId := by
    rintro o ⟨j, db, hj, rfl⟩
    exact h.inv.dbs.ids.lt hj
  constructor
  · intro name o hlive
    rw [hrun] at hlive
    rw [honce]
    rintro (hpast | hnow)
    · rcases heff.live_db hlive with hlive' | hnew
      · exact hist.open_not_closed name o hlive' hpast
      · -- identities are not reused
        have hlt' := hist.lt name o hpast
        omega
    · exact (hnow.live h.inv (h.current.usesCurrent x.1)).2 hlive
  · intro w hw o ho hdead
    rw [hrun] at hw hdead
    rw [honce]
    rcases heff.mem_dbs h.inv.refs hw with ⟨w', hw', hobj, -, hname⟩ | ⟨o', ho', -, hlive⟩
    · rw [← hname]
      by_cases hlive : (Machine.run step s₀ cs).native.dbs.Live Db.id o
      · -- open before the call and not afterwards
        obtain ⟨j, db, hj, rfl⟩ := hlive
        obtain ⟨o', hok⟩ := h.dbHandle hw'
        have hoo : db.id = o' :=
          Option.some.inj (ho.symm.trans (hobj.symm.trans hok.obj))
        rcases live_or_closesDb h.inv (h.current.usesCurrent x.1) hj with hstill | hcloses
        · exact absurd ⟨j, db, hstill, rfl⟩ hdead
        · rw [hok.name hj hoo] at hcloses
          exact Or.inr hcloses
      · exact Or.inl (hist.closed w' hw' o (hobj.trans ho) hlive)
    · -- a wrapper that has just been constructed is on an open database
      rw [ho] at ho'
      cases ho'
      exact absurd hlive hdead
  · intro name o hcl
    rw [hrun]
    refine lt_of_lt_of_le ?_ heff.nextId_le
    rcases (honce name o).mp hcl with hpast | hnow
    · exact hist.lt name o hpast
    · exact hlt (hnow.live h.inv (h.current.usesCurrent x.1)).1

end History

lemma closeHistory_run (disk : Dir → Option Content) (documentDir : Bytes)
    (cs : List (Call × Faults)) : CloseHistory (start disk documentDir) cs := by
  -- on the last call, since `Once` looks back
  induction cs using List.reverseRecOn with
  | nil =>
    refine ⟨?_, ?_, ?_⟩
    · exact fun _ _ _ h => h
    · exact fun h hh => (List.not_mem_nil hh).elim
    · exact fun _ _ h => h.elim
  | append_singleton cs x hist => exact hist.snoc (installed_run disk documentDir cs) x

/-! ## The registry -/

/-- A wrapper that is not closed refers to the open database of its name. -/
lemma DbHandleOk.of_not_closed (hrefs : s.RefsOk) {h : LevelDB} (hok : DbHandleOk s.native h o)
    (hopen : s.closed h = false) :
    ∃ (k : ℕ) (db : Db), h.ref = .number k ∧ s.native.dbs.get k = some db ∧ db.name = h.name := by
  have hlive : s.native.dbs.Live Db.id o := by
    by_contra hdead
    rw [(closed_iff hrefs hok).mpr hdead] at hopen
    cases hopen
  obtain ⟨j, db, hj, hid⟩ := hlive
  rcases hok.ref with hu | ⟨i, hi⟩
  · simp [closed, hu] at hopen
  · have htr := hok.holder.tracks
    rw [hi, refIdx_natCast] at htr
    have hji : j = i := (htr j db hj).mp hid
    subst hji
    exact ⟨j, db, hi, hj, hok.name hj hid⟩

lemma ref_eq_of_not_closed (h : s.Installed) {a b : LevelDB} (ha : a ∈ s.dbs) (hb : b ∈ s.dbs)
    (hname : a.name = b.name) (hca : s.closed a = false) (hcb : s.closed b = false) :
    a.ref = b.ref := by
  obtain ⟨o, hoka⟩ := h.dbHandle ha
  obtain ⟨o', hokb⟩ := h.dbHandle hb
  obtain ⟨k, db, hka, hdb, hna⟩ := hoka.of_not_closed h.inv.refs hca
  obtain ⟨k', db', hkb, hdb', hnb⟩ := hokb.of_not_closed h.inv.refs hcb
  have hnames : db.name = db'.name := by rw [hna, hnb, hname]
  have heq := List.inj_on_of_nodup_map h.inv.refs.names (h.inv.refs.listed hdb)
    (h.inv.refs.listed hdb') hnames
  rw [hka, hkb]
  exact congrArg Prod.snd heq

lemma run_dbs_getElem? {i : ℕ} {h : LevelDB} (hi : s.dbs[i]? = some h)
    (more : List (Call × Faults)) :
    ∃ h', (Machine.run step s more).dbs[i]? = some h' ∧ h'.obj = h.obj ∧ h'.name = h.name := by
  refine Machine.inv_run
    (I := fun t : Process => ∃ h', t.dbs[i]? = some h' ∧ h'.obj = h.obj ∧ h'.name = h.name)
    ?_ ⟨h, hi, rfl, rfl⟩ more
  rintro t x ⟨h', hi', hobj, hname⟩
  obtain ⟨h'', hi'', hobj', hname'⟩ := (step_effect t x.1 x.2).dbs_getElem? hi'
  exact ⟨h'', hi'', hobj'.trans hobj, hname'.trans hname⟩

/-- `closed()` as a statement about the run that led to the state. -/
lemma closed_iff_once (disk : Dir → Option Content) (documentDir : Bytes)
    (cs : List (Call × Faults)) {h : LevelDB}
    (hmem : h ∈ (Machine.run step (start disk documentDir) cs).dbs) (hobj : h.obj = some o) :
    (Machine.run step (start disk documentDir) cs).closed h = true ↔
      Machine.Once step (ClosesDb h.name o) (start disk documentDir) cs := by
  have hinst := installed_run disk documentDir cs
  have hist := closeHistory_run disk documentDir cs
  obtain ⟨o', hok⟩ := hinst.dbHandle hmem
  have hoo : o' = o := Option.some.inj (hok.obj.symm.trans hobj)
  subst hoo
  rw [closed_iff hinst.inv.refs hok]
  constructor
  · exact hist.closed h hmem o' hobj
  · intro hcl hlive
    exact hist.open_not_closed h.name o' hlive hcl

/-- **`openRefs` and `closed()` are accurate.** Within one installation, whatever fails:

* `openRefs` is injective, its references are the indices of the non-empty slots of `dbs`, and
  the slot of a name holds the database opened for it;
* a constructor that returns hands out a wrapper on the open database of its name, and
  `closed()` of a wrapper is true iff that database has been closed since, and stays true;
* the wrappers of a name that are not closed have the same reference;
* a constructor or a close that throws changes neither `openRefs` nor what a handle means. -/
theorem openRefs_accurate (disk : Dir → Option Content) (documentDir : Bytes)
    (cs : List (Call × Faults)) :
    let s := Machine.run step (start disk documentDir) cs
    ((∀ a b ref, openRef s.openRefs a = some ref → openRef s.openRefs b = some ref → a = b) ∧
      (∀ ref, (∃ name, openRef s.openRefs name = some ref) ↔
        ∃ (k : ℕ) (db : Db), ref = .number k ∧ s.native.dbs.get k = some db) ∧
      ∀ name ref, openRef s.openRefs name = some ref →
        ∃ (k : ℕ) (db : Db), ref = .number k ∧ s.native.dbs.get k = some db ∧ db.name = name) ∧
    ((∀ name c e f v on, (s.step (.newLevelDB name c e, f)).1 = .ret v on →
        ∃ (h : LevelDB) (k : ℕ) (db : Db),
          (s.step (.newLevelDB name c e, f)).2.dbs = s.dbs ++ [h] ∧ h.name = name ∧
          h.ref = .number k ∧
          (s.step (.newLevelDB name c e, f)).2.native.dbs.get k = some db ∧ db.name = name ∧
          h.obj = some db.id) ∧
      ∀ (i : ℕ) (h : LevelDB), s.dbs[i]? = some h → ∃ o, h.obj = some o ∧
        (s.closed h = true ↔
          Machine.Once step (ClosesDb h.name o) (start disk documentDir) cs) ∧
        (s.closed h = true → ∀ more, ∃ h', (Machine.run step s more).dbs[i]? = some h' ∧
          h'.obj = some o ∧ h'.name = h.name ∧ (Machine.run step s more).closed h' = true)) ∧
    (∀ a ∈ s.dbs, ∀ b ∈ s.dbs, a.name = b.name → s.closed a = false → s.closed b = false →
      a.ref = b.ref) ∧
    (∀ name c e f err, (s.step (.newLevelDB name c e, f)).1 = .throw err →
      SameHandles s (s.step (.newLevelDB name c e, f)).2) ∧
    ∀ i f err, (s.step (.close i, f)).1 = .throw err → SameHandles s (s.step (.close i, f)).2 := by
  intro s
  have hinst : s.Installed := installed_run disk documentDir cs
  have hrefs := hinst.inv.refs
  refine ⟨⟨fun a b ref => openRef_inj hrefs, fun ref => ⟨?_, ?_⟩, fun name ref href => ?_⟩,
    ⟨fun name c e f v on hret => step_newLevelDB_ret hrefs hret, fun i h hi => ?_⟩,
    fun a ha b hb => ref_eq_of_not_closed hinst ha hb,
    fun name c e f err => newLevelDB_throw,
    fun i f err hthrow => SameHandles.of_eq (step_close_throw hthrow)⟩
  · rintro ⟨name, href⟩
    obtain ⟨k, db, hk, hdb, -⟩ := hrefs.bound _ (mem_of_openRef href)
    exact ⟨k, db, hk, hdb⟩
  · rintro ⟨k, db, rfl, hdb⟩
    exact ⟨db.name, openRef_of_mem hrefs (hrefs.listed hdb)⟩
  · exact hrefs.bound _ (mem_of_openRef href)
  · have hmem := List.mem_of_getElem? hi
    obtain ⟨o, hok⟩ := hinst.dbHandle hmem
    have hiff := closed_iff_once disk documentDir cs hmem hok.obj
    refine ⟨o, hok.obj, hiff, fun hclosed more => ?_⟩
    obtain ⟨h', hi', hobj', hname'⟩ := run_dbs_getElem? hi more
    refine ⟨h', hi', hobj'.trans hok.obj, hname', ?_⟩
    -- the close that made it true is still part of the longer run
    have hrun : Machine.run step s more
        = Machine.run step (start disk documentDir) (cs ++ more) :=
      (Machine.run_append step _ cs more).symm
    rw [hrun] at hi' ⊢
    rw [closed_iff_once disk documentDir (cs ++ more) (List.mem_of_getElem? hi')
      (hobj'.trans hok.obj), hname', Machine.once_append]
    exact Or.inl (hiff.mp hclosed)

end Process

end RnLeveldb
