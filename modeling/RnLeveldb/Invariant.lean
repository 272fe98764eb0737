import RnLeveldb.Effects

/-!
# Registry invariants

Four invariants tie the native registries to the JavaScript side:

* `RefsOk`: `openRefs` lists the non-empty slots of `dbs`, each under the name its database
  was opened for;
* `DbsOk`, `IteratorsOk`, `BatchesOk`: a wrapper made since the registries were last cleared
  finds in the slot it refers to the object it was made for, or nothing. For batches, whose
  slots are reused, it finds its object until it drops the reference.

Each is preserved by every effect of a call. Only `BatchesOk` depends on the wrappers the
application uses (`UsesCurrent`): a batch wrapper that outlived a clearing of the registries
could close a batch that is not its own.
-/

namespace RnLeveldb

/-- A name is not bound exactly if no entry has it. -/
lemma openRef_eq_none {refs : List (JsString × JsValue)} {name : JsString} :
    openRef refs name = none ↔ ∀ e ∈ refs, e.1 ≠ name := by
  simp [openRef, List.find?_eq_none]

/-- What a name is bound to is an entry. -/
lemma mem_of_openRef {refs : List (JsString × JsValue)} {name : JsString} {ref : JsValue}
    (h : openRef refs name = some ref) : (name, ref) ∈ refs := by
  rw [openRef, Option.map_eq_some_iff] at h
  obtain ⟨⟨n, r⟩, hfind, rfl⟩ := h
  have hmem := List.mem_of_find?_eq_some hfind
  have hname : n = name := by simpa using List.find?_some hfind
  rwa [hname] at hmem

/-! ## Lists of wrappers

A constructor adds a wrapper at the end of its list, and closing replaces one. -/

section

variable {α : Type} {P : α → Prop} {l : List α} {a : α}

lemma forall_mem_concat (h : ∀ x ∈ l, P x) (ha : P a) : ∀ x ∈ l ++ [a], P x :=
  List.forall_mem_append.mpr ⟨h, List.forall_mem_singleton.mpr ha⟩

lemma forall_mem_set (h : ∀ x ∈ l, P x) (ha : P a) (i : ℕ) : ∀ x ∈ l.set i a, P x := by
  intro x hx
  rcases List.mem_or_eq_of_mem_set hx with hmem | heq
  · exact h x hmem
  · rw [heq]
    exact ha

end

namespace Process

variable {s s' : Process} {c : Call}

/-! ## `openRefs` -/

/-- Names are bound once, each to a slot with the database opened for it, and every open database
is listed. -/
structure RefsOk (s : Process) : Prop where
  names : (s.openRefs.map Prod.fst).Nodup
  bound : ∀ e ∈ s.openRefs, ∃ (i : ℕ) (db : Db),
    e.2 = .number i ∧ s.native.dbs.get i = some db ∧ db.name = e.1
  listed : ∀ {i : ℕ} {db : Db}, s.native.dbs.get i = some db →
    (db.name, JsValue.number i) ∈ s.openRefs

/-- An empty last slot is not listed. -/
lemma RefsOk.push_none (h : s.RefsOk) :
    RefsOk { s with native := { s.native with dbs := s.native.dbs.push none } } where
  names := h.names
  bound := by
    intro e he
    obtain ⟨i, db, hi, hdb, hname⟩ := h.bound e he
    have hne : i ≠ s.native.dbs.size := ne_of_lt (SlotTable.lt_size_of_get hdb)
    exact ⟨i, db, hi, by rw [SlotTable.get_push, if_neg hne]; exact hdb, hname⟩
  listed := by
    intro i db hdb
    rw [SlotTable.get_push] at hdb
    split at hdb
    · cases hdb
    · exact h.listed hdb

/-- A new name is bound to the index of the slot its database goes into. -/
lemma RefsOk.push (h : s.RefsOk) {name : JsString} (href : openRef s.openRefs name = none)
    {w : World} {db : Db} (hw : w.dbs = s.native.dbs.push (some db)) (hname : db.name = name)
    {dbs : List LevelDB} :
    RefsOk { s with native := w, openRefs := (name, .number s.native.dbs.size) :: s.openRefs,
                    dbs := dbs } where
  names := by
    rw [List.map_cons, List.nodup_cons]
    refine ⟨?_, h.names⟩
    rw [List.mem_map]
    rintro ⟨e, he, hen⟩
    exact openRef_eq_none.mp href e he hen
  bound := by
    intro e he
    dsimp only at he ⊢
    rw [hw]
    rcases List.mem_cons.mp he with rfl | he
    · exact ⟨s.native.dbs.size, db, rfl, by rw [SlotTable.get_push, if_pos rfl], hname⟩
    · obtain ⟨i, db', hi, hdb', hname'⟩ := h.bound e he
      have hne : i ≠ s.native.dbs.size := ne_of_lt (SlotTable.lt_size_of_get hdb')
      exact ⟨i, db', hi, by rw [SlotTable.get_push, if_neg hne]; exact hdb', hname'⟩
  listed := by
    intro i db' hdb'
    dsimp only at hdb' ⊢
    rw [hw, SlotTable.get_push] at hdb'
    split at hdb'
    · next hi =>
      cases hdb'
      rw [hi, hname]
      exact List.mem_cons_self
    · exact List.mem_cons_of_mem _ (h.listed hdb')

/-- Emptying a slot, exactly the entry of that slot goes. -/
lemma RefsOk.reset (h : s.RefsOk) {k : ℕ} {refs : List (JsString × JsValue)} {w : World}
    (hw : w.dbs = s.native.dbs.reset k) (hsub : refs.Sublist s.openRefs)
    (hrefs : ∀ e ∈ s.openRefs, e ∈ refs ↔ e.2 ≠ .number k) {dbs : List LevelDB} :
    RefsOk { s with native := w, openRefs := refs, dbs := dbs } where
  names := (hsub.map Prod.fst).nodup h.names
  bound := by
    intro e he
    dsimp only at he ⊢
    have hmem := hsub.subset he
    obtain ⟨i, db, hi, hdb, hname⟩ := h.bound e hmem
    have hne : i ≠ k := by
      intro hik
      rw [hik] at hi
      exact (hrefs e hmem).mp he hi
    exact ⟨i, db, hi, by rw [hw, SlotTable.get_reset, if_neg hne]; exact hdb, hname⟩
  listed := by
    intro i db hdb
    dsimp only at hdb ⊢
    rw [hw, SlotTable.get_reset] at hdb
    split at hdb
    · cases hdb
    · next hik =>
      have hmem := h.listed hdb
      rw [hrefs _ hmem]
      intro heq
      cases heq
      exact hik rfl

/-- No call makes `openRefs` disagree with the registry: both change together in the constructor,
in `close` and in a forced destroy. -/
theorem RefsOk.effect (h : s.RefsOk) (heff : Effect s c s') : s'.RefsOk := by
  cases heff with
  | openFailed => exact h.push_none
  | opened name _ _ content href hlock => exact h.push href rfl rfl
  | closed i k w db hi hk hdb =>
    -- `close` forgets by index what `forceClosed` forgets by name
    refine h.reset rfl List.filter_sublist fun e he => ?_
    rw [refIdx_eq_some.mp hk, List.mem_filter]
    simp [he]
  | forceClosed name ref k db disk href hk hdb =>
    refine h.reset rfl List.filter_sublist fun e he => ?_
    have href' : ref = .number k := refIdx_eq_some.mp hk
    -- the entry of `name` is the only one for slot `k`
    have hiff : e.1 = name ↔ e.2 = .number k := by
      obtain ⟨i, db', hi, hdb', hname⟩ := h.bound e he
      obtain ⟨j, db'', hj, hdb'', hname'⟩ := h.bound _ (mem_of_openRef href)
      have hjk : j = k := by
        rw [href'] at hj
        cases hj
        rfl
      rw [hjk] at hdb''
      constructor
      · intro hen
        have hmem := h.listed hdb''
        rw [hname'] at hmem
        have := List.inj_on_of_nodup_map h.names he hmem hen
        rw [this]
      · intro hek
        rw [hi] at hek
        cases hek
        rw [hdb'] at hdb''
        cases hdb''
        exact hname.symm.trans hname'
    rw [List.mem_filter]
    simp [he, hiff]
  | stored => exact ⟨h.names, h.bound, h.listed⟩
  | shared => exact ⟨h.names, h.bound, h.listed⟩
  | destroyed => exact ⟨h.names, h.bound, h.listed⟩
  | newIterator => exact ⟨h.names, h.bound, h.listed⟩
  | moved => exact ⟨h.names, h.bound, h.listed⟩
  | closedIterator => exact ⟨h.names, h.bound, h.listed⟩
  | newBatch => exact ⟨h.names, h.bound, h.listed⟩
  | appended => exact ⟨h.names, h.bound, h.listed⟩
  | closedBatch => exact ⟨h.names, h.bound, h.listed⟩

/-! ## Databases -/

/-- What a `LevelDB` of the current generation finds. -/
structure DbHandleOk (w : World) (h : LevelDB) (o : ℕ) : Prop where
  obj : h.obj = some o
  holder : w.dbs.Holder Db.id w.nextId (refIdx h.ref) o
  name : ∀ {j : ℕ} {db : Db}, w.dbs.get j = some db → db.id = o → db.name = h.name
  ref : h.ref = .undefined ∨ ∃ i : ℕ, h.ref = .number i

/-- Databases are numbered by identity, and each wrapper of this generation tracks its own. -/
structure DbsOk (s : Process) : Prop where
  ids : s.native.dbs.Ids Db.id s.native.nextId
  gens : ∀ h ∈ s.dbs, h.gen ≤ s.native.gen
  -- a wrapper from before a clearing may find an object that is not its own
  handles : ∀ h ∈ s.dbs, h.gen = s.native.gen → ∃ o, DbHandleOk s.native h o

/-- A wrapper looks at the registry of databases only. -/
lemma DbHandleOk.congr {w w' : World} {h : LevelDB} {o : ℕ} (hok : DbHandleOk w h o)
    (hdbs : w'.dbs = w.dbs) (hnext : w.nextId ≤ w'.nextId) : DbHandleOk w' h o where
  obj := hok.obj
  holder := by
    rw [hdbs]
    exact hok.holder.mono hnext
  name := by
    rw [hdbs]
    exact hok.name
  ref := hok.ref

/-- A slot that stays empty is not the one of any wrapper. -/
lemma DbHandleOk.push_none {w w' : World} {h : LevelDB} {o : ℕ} (hok : DbHandleOk w h o)
    (hdbs : w'.dbs = w.dbs.push none) (hnext : w'.nextId = w.nextId) : DbHandleOk w' h o where
  obj := hok.obj
  holder := by
    rw [hdbs, hnext]
    exact hok.holder.push_none
  name := by
    intro j db hj hid
    rw [hdbs, SlotTable.get_push] at hj
    split at hj
    · cases hj
    · exact hok.name hj hid
  ref := hok.ref

/-- A database that is opened is in no slot a wrapper has tracked before. -/
lemma DbHandleOk.push {w w' : World} {h : LevelDB} {o : ℕ} (hok : DbHandleOk w h o) {db : Db}
    (hdbs : w'.dbs = w.dbs.push (some db)) (hid : db.id = w.nextId)
    (hnext : w'.nextId = w.nextId + 1) : DbHandleOk w' h o where
  obj := hok.obj
  holder := by
    rw [hdbs, hnext]
    exact hok.holder.push hid
  name := by
    intro j db' hj hid'
    rw [hdbs, SlotTable.get_push] at hj
    split at hj
    · cases hj
      have := hok.holder.lt
      omega
    · exact hok.name hj hid'
  ref := hok.ref

/-- A slot is emptied: another, or that of the wrapper, which has then lost its database. -/
lemma DbHandleOk.reset {w w' : World} {h : LevelDB} {o k : ℕ} (hok : DbHandleOk w h o)
    (hdbs : w'.dbs = w.dbs.reset k) (hnext : w'.nextId = w.nextId) : DbHandleOk w' h o where
  obj := hok.obj
  holder := by
    rw [hdbs, hnext]
    exact hok.holder.reset k
  name := by
    intro j db hj hid
    rw [hdbs, SlotTable.get_reset] at hj
    split at hj
    · cases hj
    · exact hok.name hj hid
  ref := hok.ref

/-- The wrapper through which a database is closed does not refer to a slot any more. -/
lemma DbHandleOk.reset_self {w w' : World} {h : LevelDB} {o k : ℕ} (hok : DbHandleOk w h o)
    (hk : refIdx h.ref = some k) (hdbs : w'.dbs = w.dbs.reset k)
    (hnext : w'.nextId = w.nextId) : DbHandleOk w' { h with ref := .undefined } o where
  obj := hok.obj
  holder := by
    have := hok.holder
    rw [hk] at this
    rw [hdbs, hnext]
    exact this.reset_self
  name := (hok.reset hdbs hnext).name
  ref := Or.inl rfl

/-- Nothing the invariant looks at has changed. -/
lemma DbsOk.congr (h : s.DbsOk) (hdbs : s'.native.dbs = s.native.dbs)
    (hnext : s.native.nextId ≤ s'.native.nextId) (hgen : s'.native.gen = s.native.gen)
    (hw : s'.dbs = s.dbs) : s'.DbsOk where
  ids := by
    rw [hdbs]
    exact h.ids.mono hnext
  gens := by
    rw [hw, hgen]
    exact h.gens
  handles := by
    intro w hmem hg
    rw [hw] at hmem
    rw [hgen] at hg
    obtain ⟨o, ho⟩ := h.handles w hmem hg
    exact ⟨o, ho.congr hdbs hnext⟩

/-- A wrapper constructed for a name that is bound finds the database of that name. -/
lemma DbsOk.shared (h : s.DbsOk) (hrefs : s.RefsOk) {name : JsString} {ref : JsValue}
    (href : openRef s.openRefs name = some ref) :
    ∃ (i : ℕ) (db : Db), ref = .number i ∧ s.native.dbs.get i = some db ∧ db.name = name ∧
      DbHandleOk s.native { ref := ref, obj := (dbAt s.native ref).map Db.id,
                            gen := s.native.gen, name := name } db.id := by
  obtain ⟨i, db, hi, hdb, hname⟩ := hrefs.bound _ (mem_of_openRef href)
  dsimp only at hi hname
  subst hi
  refine ⟨i, db, rfl, hdb, hname, ?_, ?_, ?_, Or.inr ⟨i, rfl⟩⟩
  · simp only [dbAt, refIdx_natCast, Option.bind_some, hdb, Option.map_some]
  · rw [refIdx_natCast]
    exact h.ids.holder hdb
  · intro j db' hj hid
    have hji := h.ids.inj hj hdb hid
    rw [hji, hdb] at hj
    cases hj
    exact hname

/-- Every call keeps databases and wrappers together. -/
theorem DbsOk.effect (h : s.DbsOk) (hrefs : s.RefsOk) (heff : Effect s c s') : s'.DbsOk := by
  cases heff with
  | openFailed =>
    refine ⟨h.ids.push_none, h.gens, fun w hw hg => ?_⟩
    obtain ⟨o, ho⟩ := h.handles w hw hg
    exact ⟨o, ho.push_none rfl rfl⟩
  | opened name _ _ content href hlock =>
    refine ⟨h.ids.fill rfl (SlotTable.get_push _ _), forall_mem_concat h.gens le_rfl,
      forall_mem_concat (fun w hw hg => ?_) fun _ => ?_⟩
    · obtain ⟨o, ho⟩ := h.handles w hw hg
      exact ⟨o, ho.push rfl rfl rfl⟩
    · refine ⟨s.native.nextId, rfl, ?_, ?_, Or.inr ⟨_, rfl⟩⟩
      · rw [refIdx_natCast]
        exact h.ids.holder_push rfl
      · intro j db hj hid
        dsimp only at hj
        rw [SlotTable.get_push] at hj
        split at hj
        · cases hj
          rfl
        · -- the identities in use are below `nextId`
          have hlt : db.id < s.native.nextId := h.ids.lt hj
          omega
  | shared name _ _ ref href =>
    refine ⟨h.ids, forall_mem_concat h.gens le_rfl, forall_mem_concat h.handles fun _ => ?_⟩
    -- the name is bound to the slot of the database opened for it
    obtain ⟨_, db, _, _, _, hok⟩ := h.shared hrefs href
    exact ⟨db.id, hok⟩
  | closed i k w db hi hk hdb =>
    have hmem := List.mem_of_getElem? hi
    refine ⟨h.ids.reset k, forall_mem_set h.gens ?_ i,
      forall_mem_set (fun w' hw' hg => ?_) (fun hg => ?_) i⟩
    · exact h.gens w hmem
    · obtain ⟨o, ho⟩ := h.handles w' hw' hg
      exact ⟨o, ho.reset rfl rfl⟩
    · obtain ⟨o, ho⟩ := h.handles w hmem hg
      exact ⟨o, ho.reset_self hk rfl rfl⟩
  | forceClosed name ref k db disk href hk hdb =>
    refine ⟨h.ids.reset k, h.gens, fun w hw hg => ?_⟩
    obtain ⟨o, ho⟩ := h.handles w hw hg
    exact ⟨o, ho.reset rfl rfl⟩
  | stored => exact h.congr rfl le_rfl rfl rfl
  | destroyed => exact h.congr rfl le_rfl rfl rfl
  | newIterator => exact h.congr rfl (Nat.le_succ _) rfl rfl
  | moved => exact h.congr rfl le_rfl rfl rfl
  | closedIterator => exact h.congr rfl le_rfl rfl rfl
  | newBatch => exact h.congr rfl (Nat.le_succ _) rfl rfl
  | appended => exact h.congr rfl le_rfl rfl rfl
  | closedBatch => exact h.congr rfl le_rfl rfl rfl

/-! ## Iterators -/

/-- What a `LevelDBIterator` of the current generation finds. -/
structure IteratorHandleOk (w : World) (h : LevelDBIterator) (o d : ℕ) : Prop where
  obj : h.obj = some o
  holder : w.iterators.Holder Iterator.id w.nextId (refIdx h.ref) o
  dbId : h.dbId = some d
  db : ∀ {j : ℕ} {it : Iterator}, w.iterators.get j = some it → it.id = o → it.dbId = d

/-- The same for iterators, whose wrappers also know the database they are on. -/
structure IteratorsOk (s : Process) : Prop where
  ids : s.native.iterators.Ids Iterator.id s.native.nextId
  gens : ∀ h ∈ s.iterators, h.gen ≤ s.native.gen
  handles : ∀ h ∈ s.iterators, h.gen = s.native.gen → ∃ o d, IteratorHandleOk s.native h o d

/-- Iterators were only taken away, moved, or added under new identities. -/
lemma IteratorHandleOk.of_get_sub {w w' : World} {h : LevelDBIterator} {o d : ℕ}
    (hok : IteratorHandleOk w h o d)
    (hholder : w'.iterators.Holder Iterator.id w'.nextId (refIdx h.ref) o)
    (hget : ∀ {j it'}, w'.iterators.get j = some it' →
      (∃ it, w.iterators.get j = some it ∧ it.id = it'.id ∧ it.dbId = it'.dbId) ∨
        w.nextId ≤ it'.id) :
    IteratorHandleOk w' h o d where
  obj := hok.obj
  holder := hholder
  dbId := hok.dbId
  db := by
    intro j it' hj hid
    rcases hget hj with ⟨it, hit, hid', hdb⟩ | hlt
    · rw [← hdb]
      exact hok.db hit (hid'.trans hid)
    · have := hok.holder.lt
      omega

lemma IteratorHandleOk.congr {w w' : World} {h : LevelDBIterator} {o d : ℕ}
    (hok : IteratorHandleOk w h o d) (hits : w'.iterators = w.iterators)
    (hnext : w.nextId ≤ w'.nextId) : IteratorHandleOk w' h o d := by
  refine hok.of_get_sub ?_ ?_ <;> rw [hits]
  · exact hok.holder.mono hnext
  · exact fun hj => Or.inl ⟨_, hj, rfl, rfl⟩

lemma IteratorsOk.congr (h : s.IteratorsOk) (hits : s'.native.iterators = s.native.iterators)
    (hnext : s.native.nextId ≤ s'.native.nextId) (hgen : s'.native.gen = s.native.gen)
    (hw : s'.iterators = s.iterators) : s'.IteratorsOk where
  ids := by
    rw [hits]
    exact h.ids.mono hnext
  gens := by
    rw [hw, hgen]
    exact h.gens
  handles := by
    intro w hmem hg
    rw [hw] at hmem
    rw [hgen] at hg
    obtain ⟨o, d, ho⟩ := h.handles w hmem hg
    exact ⟨o, d, ho.congr hits hnext⟩

/-- Emptying a slot, nobody finds an object he did not find before. -/
lemma IteratorHandleOk.reset {w w' : World} {h : LevelDBIterator} {o d k : ℕ}
    (hok : IteratorHandleOk w h o d) (hits : w'.iterators = w.iterators.reset k)
    (hnext : w'.nextId = w.nextId) : IteratorHandleOk w' h o d := by
  refine hok.of_get_sub ?_ ?_ <;> rw [hits]
  · rw [hnext]
    exact hok.holder.reset k
  · intro j it' hj
    rw [SlotTable.get_reset] at hj
    split at hj
    · cases hj
    · exact Or.inl ⟨it', hj, rfl, rfl⟩

/-- The wrapper through which an iterator is closed gets the index -1. -/
lemma IteratorHandleOk.reset_self {w w' : World} {h : LevelDBIterator} {o d k : ℕ}
    (hok : IteratorHandleOk w h o d) (hk : refIdx h.ref = some k)
    (hits : w'.iterators = w.iterators.reset k) (hnext : w'.nextId = w.nextId) :
    IteratorHandleOk w' { h with ref := .number (-1) } o d where
  obj := hok.obj
  holder := by
    have := hok.holder
    rw [hk] at this
    rw [hits, hnext]
    exact this.reset_self
  dbId := hok.dbId
  db := (hok.reset hits hnext).db

/-- Every call keeps iterators and wrappers together. -/
theorem IteratorsOk.effect (h : s.IteratorsOk) (heff : Effect s c s') : s'.IteratorsOk := by
  cases heff with
  | newIterator i k w db hi hk hdb =>
    refine ⟨h.ids.fill rfl (SlotTable.get_push _ _), forall_mem_concat h.gens le_rfl,
      forall_mem_concat (fun w' hw' hg => ?_) fun _ => ?_⟩
    · obtain ⟨o, d, ho⟩ := h.handles w' hw' hg
      refine ⟨o, d, ho.of_get_sub (ho.holder.push rfl) ?_⟩
      intro j it' hj
      rw [SlotTable.get_push] at hj
      split at hj
      · cases hj
        exact Or.inr le_rfl
      · exact Or.inl ⟨it', hj, rfl, rfl⟩
    · refine ⟨s.native.nextId, db.id, rfl, ?_, rfl, ?_⟩
      · rw [refIdx_natCast]
        exact h.ids.holder_push rfl
      · intro j it' hj hid
        dsimp only at hj
        rw [SlotTable.get_push] at hj
        split at hj
        · cases hj
          rfl
        · -- the identities in use are below `nextId`
          have hlt : it'.id < s.native.nextId := h.ids.lt hj
          omega
  | moved i k m w it it' hi hk hit hid hslot hdbId =>
    refine ⟨h.ids.update hit hid, h.gens, fun w' hw' hg => ?_⟩
    obtain ⟨o, d, ho⟩ := h.handles w' hw' hg
    refine ⟨o, d, ho.of_get_sub (ho.holder.update hit hid) ?_⟩
    intro j it'' hj
    rw [SlotTable.get_update (SlotTable.lt_size_of_get hit)] at hj
    split at hj
    · -- the iterator that moved keeps its identity and its database
      next hjk =>
      cases hj
      rw [hjk]
      exact Or.inl ⟨it, hit, hid.symm, hdbId.symm⟩
    · exact Or.inl ⟨it'', hj, rfl, rfl⟩
  | closedIterator i k w it hi hk hit =>
    have hmem := List.mem_of_getElem? hi
    refine ⟨h.ids.reset k, forall_mem_set h.gens ?_ i,
      forall_mem_set (fun w' hw' hg => ?_) (fun hg => ?_) i⟩
    · exact h.gens w hmem
    · obtain ⟨o, d, ho⟩ := h.handles w' hw' hg
      exact ⟨o, d, ho.reset rfl rfl⟩
    · obtain ⟨o, d, ho⟩ := h.handles w hmem hg
      exact ⟨o, d, ho.reset_self hk rfl rfl⟩
  | stored => exact h.congr rfl le_rfl rfl rfl
  | openFailed => exact h.congr rfl le_rfl rfl rfl
  | opened => exact h.congr rfl (Nat.le_succ _) rfl rfl
  | shared => exact h.congr rfl le_rfl rfl rfl
  | closed => exact h.congr rfl le_rfl rfl rfl
  | destroyed => exact h.congr rfl le_rfl rfl rfl
  | forceClosed => exact h.congr rfl le_rfl rfl rfl
  | newBatch => exact h.congr rfl (Nat.le_succ _) rfl rfl
  | appended => exact h.congr rfl le_rfl rfl rfl
  | closedBatch => exact h.congr rfl le_rfl rfl rfl

/-! ## Batches -/

/-- What a `LevelDBWriteBatch` of the current generation finds: as long as it has not dropped
its reference, its slot is not empty. -/
structure BatchHandleOk (w : World) (h : LevelDBWriteBatch) (o : ℕ) : Prop where
  obj : h.obj = some o
  holder : w.batches.Holder WriteBatch.id w.nextId (refIdx h.ref) o
  full : ∀ k, refIdx h.ref = some k → w.batches.get k ≠ none
  ref : h.ref = .number (-1) ∨ ∃ i : ℕ, h.ref = .number i

/-- The same for batches. Their slots are used again, their identities are not. -/
structure BatchesOk (s : Process) : Prop where
  ids : s.native.batches.Ids WriteBatch.id s.native.nextId
  gens : ∀ h ∈ s.batches, h.gen ≤ s.native.gen
  -- of every generation: identities are not reused, though slots are
  lt : ∀ h ∈ s.batches, ∃ o, h.obj = some o ∧ o < s.native.nextId
  distinct : (s.batches.map fun h => h.obj).Nodup
  handles : ∀ h ∈ s.batches, h.gen = s.native.gen → ∃ o, BatchHandleOk s.native h o

/-- Every wrapper the call uses was made since the registries were last cleared, or finds
nothing in them. -/
def UsesCurrent (s : Process) (c : Call) : Prop :=
  ∀ u ∈ c.uses s, u.2.gen = s.native.gen ∨ s.native.objAt u.1 u.2.ref = none

/-- A wrapper that finds something was made since then. -/
lemma UsesCurrent.gen_eq (hcur : s.UsesCurrent c) {u : Kind × Handle} (hu : u ∈ c.uses s)
    (hfull : s.native.objAt u.1 u.2.ref ≠ none) : u.2.gen = s.native.gen := by
  rcases hcur u hu with hgen | hnone
  · exact hgen
  · exact absurd hnone hfull

lemma BatchesOk.congr (h : s.BatchesOk) (hbs : s'.native.batches = s.native.batches)
    (hnext : s.native.nextId ≤ s'.native.nextId) (hgen : s'.native.gen = s.native.gen)
    (hw : s'.batches = s.batches) : s'.BatchesOk where
  ids := by
    rw [hbs]
    exact h.ids.mono hnext
  gens := by
    rw [hw, hgen]
    exact h.gens
  lt := by
    intro w hmem
    rw [hw] at hmem
    obtain ⟨o, ho, hlt⟩ := h.lt w hmem
    exact ⟨o, ho, lt_of_lt_of_le hlt hnext⟩
  distinct := by
    rw [hw]
    exact h.distinct
  handles := by
    intro w hmem hg
    rw [hw] at hmem
    rw [hgen] at hg
    obtain ⟨o, ho⟩ := h.handles w hmem hg
    refine ⟨o, ho.obj, ?_, ?_, ho.ref⟩
    · rw [hbs]
      exact ho.holder.mono hnext
    · rw [hbs]
      exact ho.full

/-- Two wrappers that hold the same index of a non-empty slot are one wrapper. -/
lemma BatchesOk.eq_of_ref (h : s.BatchesOk) {a b : LevelDBWriteBatch} {i j k : ℕ}
    (hi : s.batches[i]? = some a) (hj : s.batches[j]? = some b)
    (hga : a.gen = s.native.gen) (hgb : b.gen = s.native.gen)
    (ha : refIdx a.ref = some k) (hb : refIdx b.ref = some k) : i = j := by
  obtain ⟨o, ho⟩ := h.handles a (List.mem_of_getElem? hi) hga
  obtain ⟨o', ho'⟩ := h.handles b (List.mem_of_getElem? hj) hgb
  obtain ⟨x, hx⟩ := Option.ne_none_iff_exists'.mp (ho.full k ha)
  have htr := ho.holder.tracks
  rw [ha] at htr
  have htr' := ho'.holder.tracks
  rw [hb] at htr'
  have hoo : o = o' := (htr.get_id hx).symm.trans (htr'.get_id hx)
  -- equal objects sit at equal positions of the list of wrappers
  have hai : (s.batches.map fun h => h.obj)[i]? = some (some o) := by
    rw [List.getElem?_map, hi, Option.map_some, ho.obj]
  have hbj : (s.batches.map fun h => h.obj)[j]? = some (some o) := by
    rw [List.getElem?_map, hj, Option.map_some, ho'.obj, hoo]
  obtain ⟨hil, hai⟩ := List.getElem?_eq_some_iff.mp hai
  obtain ⟨hjl, hbj⟩ := List.getElem?_eq_some_iff.mp hbj
  exact (List.Nodup.getElem_inj_iff h.distinct).mp (hai.trans hbj.symm)

/-- A fresh batch takes a slot no wrapper refers to. -/
lemma BatchesOk.alloc (h : s.BatchesOk) :
    BatchesOk { s with
      native := { s.native with
        batches := (s.native.batches.alloc { id := s.native.nextId, ops := [] }).2
        nextId := s.native.nextId + 1 }
      batches := s.batches ++
        [{ ref := .number (s.native.batches.alloc { id := s.native.nextId, ops := [] }).1,
           obj := some s.native.nextId, gen := s.native.gen }] } where
  ids := h.ids.fill rfl (SlotTable.get_alloc _ _)
  gens := forall_mem_concat h.gens le_rfl
  lt := by
    refine forall_mem_concat (fun w hw => ?_) ⟨_, rfl, Nat.lt_succ_self _⟩
    obtain ⟨o, ho, hlt⟩ := h.lt w hw
    exact ⟨o, ho, Nat.lt_succ_of_lt hlt⟩
  distinct := by
    rw [List.map_append, List.nodup_append]
    refine ⟨h.distinct, List.nodup_singleton _, ?_⟩
    intro x hx y hy hxy
    -- the object of the new wrapper is `nextId`, those of the others are below
    obtain ⟨w, hw, rfl⟩ := List.mem_map.mp hx
    obtain ⟨o, ho, hlt⟩ := h.lt w hw
    rw [List.mem_singleton.mp hy, ho] at hxy
    cases hxy
    exact lt_irrefl _ hlt
  handles := by
    refine forall_mem_concat (fun w hw hg => ?_) fun _ => ?_
    · -- the slot that is taken was empty, so it is not that of `w`
      obtain ⟨o, ho⟩ := h.handles w hw hg
      refine ⟨o, ho.obj, ho.holder.alloc rfl ho.full, fun k hk => ?_, ho.ref⟩
      dsimp only
      rw [SlotTable.get_alloc]
      split
      · simp
      · exact ho.full k hk
    · refine ⟨s.native.nextId, rfl, ?_, fun k hk => ?_, Or.inr ⟨_, rfl⟩⟩
      · rw [refIdx_natCast]
        exact h.ids.holder_alloc rfl
      · rw [refIdx_natCast] at hk
        cases hk
        dsimp only
        rw [SlotTable.get_alloc, if_pos rfl]
        simp

/-- A wrapper closes its own batch, whose slot no other wrapper refers to. -/
lemma BatchesOk.close (h : s.BatchesOk) {i k : ℕ} {w : LevelDBWriteBatch}
    (hi : s.batches[i]? = some w) (hk : refIdx w.ref = some k) (hcur : w.gen = s.native.gen) :
    BatchesOk { s with
      native := { s.native with batches := s.native.batches.reset k }
      batches := s.batches.set i { w with ref := .number (-1) } } where
  ids := h.ids.reset k
  gens := by
    apply forall_mem_set h.gens
    exact h.gens w (List.mem_of_getElem? hi)
  lt := by
    apply forall_mem_set h.lt
    exact h.lt w (List.mem_of_getElem? hi)
  distinct := by
    -- only the reference of the wrapper changes
    have hsame : (s.batches.set i { w with ref := .number (-1) }).map (fun h => h.obj)
        = s.batches.map fun h => h.obj := by
      refine List.ext_getElem? fun j => ?_
      rw [List.getElem?_map, List.getElem?_map, List.getElem?_set]
      by_cases hij : i = j
      · subst hij
        obtain ⟨hlt, -⟩ := List.getElem?_eq_some_iff.mp hi
        rw [if_pos rfl, if_pos hlt, hi]
        rfl
      · rw [if_neg hij]
    dsimp only
    rw [hsame]
    exact h.distinct
  handles := by
    intro w' hw' hg
    obtain ⟨j, hj⟩ := List.getElem?_of_mem hw'
    dsimp only at hj
    rw [List.getElem?_set] at hj
    by_cases hij : i = j
    · rw [if_pos hij] at hj
      split at hj
      · cases hj
        obtain ⟨o, ho⟩ := h.handles w (List.mem_of_getElem? hi) hcur
        have hholder := ho.holder
        rw [hk] at hholder
        exact ⟨o, ho.obj, hholder.reset_self, fun k hk => by simp [refIdx] at hk, Or.inl rfl⟩
      · cases hj
    · rw [if_neg hij] at hj
      obtain ⟨o, ho⟩ := h.handles w' (List.mem_of_getElem? hj) hg
      refine ⟨o, ho.obj, ho.holder.reset k, fun k' hk' => ?_, ho.ref⟩
      -- two wrappers on one slot would be one wrapper
      have hne : k' ≠ k := by
        intro hkk
        rw [hkk] at hk'
        exact hij (h.eq_of_ref hi hj hcur hg hk hk')
      dsimp only
      rw [SlotTable.get_reset, if_neg hne]
      exact ho.full k' hk'

/-- Every call through current wrappers keeps batches and wrappers together. -/
theorem BatchesOk.effect (h : s.BatchesOk) (hcur : s.UsesCurrent c) (heff : Effect s c s') :
    s'.BatchesOk := by
  cases heff with
  | newBatch => exact h.alloc
  | appended c i k w b op hc hi hk hb =>
    refine ⟨h.ids.update hb rfl, h.gens, h.lt, h.distinct, fun w' hw' hg => ?_⟩
    obtain ⟨o, ho⟩ := h.handles w' hw' hg
    refine ⟨o, ho.obj, ho.holder.update hb rfl, fun k' hk' => ?_, ho.ref⟩
    dsimp only
    rw [SlotTable.get_update (SlotTable.lt_size_of_get hb)]
    split
    · simp
    · exact ho.full k' hk'
  | closedBatch i k w b hi hk hb =>
    have huse : (Kind.batch, w.toHandle) ∈ (Call.batchClose i).uses s := by
      simp [Call.uses, hi]
    -- a wrapper of an earlier generation might close a batch that is not its own
    have hgen : w.gen = s.native.gen := hcur.gen_eq huse (by simp [World.objAt, hk, hb])
    exact h.close hi hk hgen
  | stored => exact h.congr rfl le_rfl rfl rfl
  | openFailed => exact h.congr rfl le_rfl rfl rfl
  | opened => exact h.congr rfl (Nat.le_succ _) rfl rfl
  | shared => exact h.congr rfl le_rfl rfl rfl
  | closed => exact h.congr rfl le_rfl rfl rfl
  | destroyed => exact h.congr rfl le_rfl rfl rfl
  | forceClosed => exact h.congr rfl le_rfl rfl rfl
  | newIterator => exact h.congr rfl (Nat.le_succ _) rfl rfl
  | moved => exact h.congr rfl le_rfl rfl rfl
  | closedIterator => exact h.congr rfl le_rfl rfl rfl

/-! ## All of them -/

/-- The invariant of runs. -/
structure Inv (s : Process) : Prop where
  refs : s.RefsOk
  dbs : s.DbsOk
  iterators : s.IteratorsOk
  batches : s.BatchesOk

/-- **A call through current wrappers keeps the registries in order.** -/
theorem Inv.step (h : s.Inv) (faults : Faults) (hcur : s.UsesCurrent c) :
    (s.step (c, faults)).2.Inv :=
  have heff := step_effect s c faults
  ⟨h.refs.effect heff, h.dbs.effect h.refs heff, h.iterators.effect heff,
    h.batches.effect hcur heff⟩

/-! ## Clearing the registries -/

section Cleared

variable {w : World} {e : Option Bytes}

/-- The wrappers that are left belong to an earlier generation. -/
lemma DbsOk.cleared (h : s.DbsOk) (hdbs : w.dbs = SlotTable.empty)
    (hgen : w.gen = s.native.gen + 1) :
    DbsOk { s with native := w, nativeModuleInitError := e } where
  ids := by
    rw [hdbs]
    exact SlotTable.ids_empty _
  gens := by
    intro w' hw'
    have := h.gens w' hw'
    dsimp only
    omega
  handles := by
    intro w' hw' hg
    have := h.gens w' hw'
    dsimp only at hg
    omega

lemma IteratorsOk.cleared (h : s.IteratorsOk) (hits : w.iterators = SlotTable.empty)
    (hgen : w.gen = s.native.gen + 1) :
    IteratorsOk { s with native := w, nativeModuleInitError := e } where
  ids := by
    rw [hits]
    exact SlotTable.ids_empty _
  gens := by
    intro w' hw'
    have := h.gens w' hw'
    dsimp only
    omega
  handles := by
    intro w' hw' hg
    have := h.gens w' hw'
    dsimp only at hg
    omega

lemma BatchesOk.cleared (h : s.BatchesOk) (hbs : w.batches = SlotTable.empty)
    (hgen : w.gen = s.native.gen + 1) (hnext : w.nextId = s.native.nextId) :
    BatchesOk { s with native := w, nativeModuleInitError := e } where
  ids := by
    rw [hbs]
    exact SlotTable.ids_empty _
  gens := by
    intro w' hw'
    have := h.gens w' hw'
    dsimp only
    omega
  lt := by
    rw [hnext]
    exact h.lt
  distinct := h.distinct
  handles := by
    intro w' hw' hg
    have := h.gens w' hw'
    dsimp only at hg
    omega

/-- Clearing the registries is harmless when no name is bound. -/
lemma Inv.cleared (h : s.Inv) (hrefs : s.openRefs = []) (hdbs : w.dbs = SlotTable.empty)
    (hits : w.iterators = SlotTable.empty) (hbs : w.batches = SlotTable.empty)
    (hgen : w.gen = s.native.gen + 1) (hnext : w.nextId = s.native.nextId) :
    Inv { s with native := w, nativeModuleInitError := e } where
  refs := by
    refine ⟨?_, ?_, ?_⟩
    · rw [hrefs]
      exact List.nodup_nil
    · rw [hrefs]
      exact fun _ he => (List.not_mem_nil he).elim
    · intro i db hi
      rw [hdbs] at hi
      simp at hi
  dbs := h.dbs.cleared hdbs hgen
  iterators := h.iterators.cleared hits hgen
  batches := h.batches.cleared hbs hgen hnext

end Cleared

/-- Nothing is open on a fresh runtime. -/
lemma inv_fresh {w : World} (hdbs : w.dbs = SlotTable.empty) (hits : w.iterators = SlotTable.empty)
    (hbs : w.batches = SlotTable.empty) : (fresh w).Inv where
  refs := by
    refine ⟨List.nodup_nil, fun _ h => (List.not_mem_nil h).elim, ?_⟩
    intro i db hi
    rw [fresh, hdbs] at hi
    simp at hi
  dbs := by
    refine ⟨?_, fun _ h => (List.not_mem_nil h).elim, fun _ h => (List.not_mem_nil h).elim⟩
    rw [fresh, hdbs]
    exact SlotTable.ids_empty _
  iterators := by
    refine ⟨?_, fun _ h => (List.not_mem_nil h).elim, fun _ h => (List.not_mem_nil h).elim⟩
    rw [fresh, hits]
    exact SlotTable.ids_empty _
  batches := by
    refine ⟨?_, fun _ h => (List.not_mem_nil h).elim, fun _ h => (List.not_mem_nil h).elim, List.nodup_nil,
      fun _ h => (List.not_mem_nil h).elim⟩
    rw [fresh, hbs]
    exact SlotTable.ids_empty _

/-- Before the first call the registries are empty. -/
theorem inv_start (disk : Dir → Option Content) (documentDir : Bytes) :
    (start disk documentDir).Inv :=
  Inv.cleared (s := fresh (World.initial disk)) (inv_fresh rfl rfl rfl) rfl
    (w := installLeveldb (World.initial disk) documentDir) rfl rfl rfl rfl rfl

/-! ## One installation -/

/-- Every wrapper was made since the registries were last cleared. -/
structure AllCurrent (s : Process) : Prop where
  dbs : ∀ h ∈ s.dbs, h.gen = s.native.gen
  iterators : ∀ h ∈ s.iterators, h.gen = s.native.gen
  batches : ∀ h ∈ s.batches, h.gen = s.native.gen

/-- The handle of wrapper `i` of a class, as `Call.uses` lists it. -/
lemma mem_uses {α : Type} {wrappers : List α} {i : ℕ} {kind : Kind} {toHandle : α → Handle}
    {u : Kind × Handle} (hu : u ∈ (wrappers[i]?.map fun h => (kind, toHandle h)).toList) :
    ∃ h, wrappers[i]? = some h ∧ u = (kind, toHandle h) := by
  obtain ⟨h, hi, heq⟩ := Option.map_eq_some_iff.mp (Option.mem_toList.mp hu)
  exact ⟨h, hi, heq.symm⟩

/-- What a call uses is a wrapper of one of the three classes. -/
lemma uses_cases {u : Kind × Handle} (hu : u ∈ c.uses s) :
    (∃ h ∈ s.dbs, u = (.db, h.toHandle)) ∨ (∃ h ∈ s.iterators, u = (.iterator, h.toHandle)) ∨
      ∃ h ∈ s.batches, u = (.batch, h.toHandle) := by
  have hdb : ∀ {i : ℕ}, u ∈ (s.dbs[i]?.map fun h => (Kind.db, h.toHandle)).toList →
      ∃ h ∈ s.dbs, u = (.db, h.toHandle) := by
    intro i hu
    obtain ⟨h, hi, rfl⟩ := mem_uses hu
    exact ⟨h, List.mem_of_getElem? hi, rfl⟩
  have hb : ∀ {i : ℕ}, u ∈ (s.batches[i]?.map fun h => (Kind.batch, h.toHandle)).toList →
      ∃ h ∈ s.batches, u = (.batch, h.toHandle) := by
    intro i hu
    obtain ⟨h, hi, rfl⟩ := mem_uses hu
    exact ⟨h, List.mem_of_getElem? hi, rfl⟩
  cases c with
  | newLevelDB | destroyDB | newWriteBatch | closed => exact (List.not_mem_nil hu).elim
  | close | put | delete | getStr | getBuf | newIterator => exact Or.inl (hdb hu)
  | write =>
    rcases List.mem_append.mp hu with hu | hu
    · exact Or.inl (hdb hu)
    · exact Or.inr (Or.inr (hb hu))
  | merge =>
    rcases List.mem_append.mp hu with hu | hu
    · exact Or.inl (hdb hu)
    · exact Or.inl (hdb hu)
  | iterator =>
    obtain ⟨h, hi, rfl⟩ := mem_uses hu
    exact Or.inr (Or.inl ⟨h, List.mem_of_getElem? hi, rfl⟩)
  | batchPut | batchDelete | batchClose => exact Or.inr (Or.inr (hb hu))

/-- Where all wrappers are current, every call uses current ones only. -/
lemma AllCurrent.usesCurrent (h : s.AllCurrent) (c : Call) : s.UsesCurrent c := by
  intro u hu
  refine Or.inl ?_
  rcases uses_cases hu with ⟨w, hw, rfl⟩ | ⟨w, hw, rfl⟩ | ⟨w, hw, rfl⟩
  · exact h.dbs w hw
  · exact h.iterators w hw
  · exact h.batches w hw

/-- A call clears no registry, so wrappers stay current. -/
theorem AllCurrent.effect (h : s.AllCurrent) (heff : Effect s c s') : s'.AllCurrent := by
  cases heff with
  | opened | shared => exact ⟨forall_mem_concat h.dbs rfl, h.iterators, h.batches⟩
  | closed i k w db hi =>
    refine ⟨forall_mem_set h.dbs ?_ i, h.iterators, h.batches⟩
    exact h.dbs w (List.mem_of_getElem? hi)
  | newIterator => exact ⟨h.dbs, forall_mem_concat h.iterators rfl, h.batches⟩
  | closedIterator i k w it hi =>
    refine ⟨h.dbs, forall_mem_set h.iterators ?_ i, h.batches⟩
    exact h.iterators w (List.mem_of_getElem? hi)
  | newBatch => exact ⟨h.dbs, h.iterators, forall_mem_concat h.batches rfl⟩
  | closedBatch i k w b hi =>
    refine ⟨h.dbs, h.iterators, forall_mem_set h.batches ?_ i⟩
    exact h.batches w (List.mem_of_getElem? hi)
  | stored | openFailed | destroyed | forceClosed | moved | appended =>
    exact ⟨h.dbs, h.iterators, h.batches⟩

/-- The invariant of an application that runs within one installation. -/
structure Installed (s : Process) : Prop where
  inv : s.Inv
  current : s.AllCurrent

/-- Within one installation every call keeps the invariant. -/
lemma Installed.step (h : s.Installed) (x : Call × Faults) : (s.step x).2.Installed where
  inv := h.inv.step x.2 (h.current.usesCurrent x.1)
  current := h.current.effect (step_effect s x.1 x.2)

lemma installed_start (disk : Dir → Option Content) (documentDir : Bytes) :
    (start disk documentDir).Installed where
  inv := inv_start disk documentDir
  current := ⟨fun _ h => (List.not_mem_nil h).elim, fun _ h => (List.not_mem_nil h).elim,
    fun _ h => (List.not_mem_nil h).elim⟩

/-- **Every state an application reaches within one installation is in order.** -/
theorem installed_run (disk : Dir → Option Content) (documentDir : Bytes)
    (cs : List (Call × Faults)) :
    (Machine.run step (start disk documentDir) cs).Installed :=
  Machine.inv_run (fun _ x h => h.step x) (installed_start disk documentDir) cs

end Process

end RnLeveldb
