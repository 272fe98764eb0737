import RnLeveldb.OwnObjects

/-!
# Reloads of the module

`index.ts` may be evaluated again on the runtime it was evaluated on before. It then calls
`install()`, which clears the registries, while `openRefs` and the wrappers of the
application survive; indices start again from 0.

Handles stay truthful in a run when every reload finds `openRefs` empty and no wrapper from
before a reload is used on an index that has been given out again. A reload with an open
database breaks it: the next constructor of that name returns the old index.
-/

namespace RnLeveldb

/-! ## Runs with reloads -/

/-- What can happen to an application: a call, or an evaluation of the module. -/
inductive Event where
  | call (x : Call × Faults)
  | reload (documentDir : Bytes) (result : Process.InstallResult)

namespace Process

variable {s : Process}

/-- One event; a reload that clears the registries has an outcome if that goes wrong. -/
def event (s : Process) : Event → Option Outcome × Process
  | .call x => (some (s.step x).1, (s.step x).2)
  | .reload documentDir .installed =>
    ((cleanupCrash s.native).map .crash, s.evalModule documentDir .installed)
  | .reload documentDir result => (none, s.evalModule documentDir result)

/-- The wrappers a call is made through: those it uses, and that of `closed`, which hands its
reference to no host function. -/
def wrappers (s : Process) : Call → List (Kind × Handle)
  | .closed i => (s.dbs[i]?.map fun h => (Kind.db, h.toHandle)).toList
  | c => c.uses s

/-- The wrappers of the call were made since the registries were last cleared, or find
nothing. -/
def ThroughCurrent (s : Process) (c : Call) : Prop :=
  ∀ u ∈ s.wrappers c, u.2.gen = s.native.gen ∨ s.native.objAt u.1 u.2.ref = none

lemma uses_subset_wrappers (s : Process) (c : Call) : c.uses s ⊆ s.wrappers c := by
  intro u hu
  cases c with
  | closed => exact (List.not_mem_nil hu).elim
  | _ => exact hu

lemma ThroughCurrent.usesCurrent {c : Call} (h : s.ThroughCurrent c) : s.UsesCurrent c :=
  fun u hu => h u (uses_subset_wrappers s c hu)

/-- `compareKey` is not called on an emptied slot. -/
def NoNullCompare (s : Process) (c : Call) : Prop :=
  ∀ i target, c = .iterator i (.compareKey target) →
    ∀ u ∈ c.uses s, s.native.objAt u.1 u.2.ref ≠ none

/-- The condition on the events of a run: no name is bound at a reload that clears the
registries, and no wrapper from before a reload is used on an index that is taken again. -/
def ReloadSafe (s : Process) : Event → Prop
  | .call x => s.ThroughCurrent x.1 ∧ s.NoNullCompare x.1
  | .reload _ .installed => s.openRefs = []
  | .reload _ _ => True

/-- A constructor of `LevelDB` that returns hands out a reference to a non-empty slot with
the database opened for its name. -/
def ConstructsTruthfully (s : Process) (x : Call × Faults) : Prop :=
  ∀ name c e, x.1 = .newLevelDB name c e → ∀ v on, (s.step x).1 = .ret v on →
    ∃ (h : LevelDB) (k : ℕ) (db : Db), (s.step x).2.dbs.getLast? = some h ∧
      h.ref = .number k ∧ (s.step x).2.native.dbs.get k = some db ∧ db.name = name

/-- A call keeps to the objects its wrappers were constructed for. -/
structure OnOwn (s : Process) (x : Call × Faults) : Prop where
  /-- Each wrapper finds the very object it was constructed for. -/
  finds : ∀ u ∈ x.1.uses s, ∃ o, u.2.obj = some o ∧ s.native.objAt u.1 u.2.ref = some o
  /-- A `LevelDB` finds a database of its own name. -/
  names : ∀ h ∈ s.dbs, (Kind.db, h.toHandle) ∈ x.1.uses s →
    ∃ db, dbAt s.native h.ref = some db ∧ db.name = h.name
  /-- These are the objects a method acts on. -/
  acts : ∀ v on, (s.step x).1 = .ret v on → (∀ name a b, x.1 ≠ .newLevelDB name a b) →
    x.1 ≠ .newWriteBatch → on.map Obj.found = (x.1.uses s).map fun u => (u.1, u.2.obj)
  /-- The call changes nothing but the directory of its own database and its own slots. -/
  frame : Frame s x.1 (s.step x).2
  /-- Nothing but its own objects matters to a method: where the wrappers find the same, it ends
  in the same way and leaves the same behind them. -/
  depends : ∀ t : Process, x.1.uses s ≠ [] → x.1.uses t = x.1.uses s →
    (∀ u ∈ x.1.uses s, t.native.find u.1 u.2.ref = s.native.find u.1 u.2.ref) →
    (t.step x).1 = (s.step x).1 ∧ ∀ u ∈ x.1.uses s,
      (t.step x).2.native.find u.1 u.2.ref = (s.step x).2.native.find u.1 u.2.ref
  /-- A new iterator is on its own database, over what that holds. -/
  iterates : ∀ i h v on, x.1 = .newIterator i → s.dbs[i]? = some h → (s.step x).1 = .ret v on →
    ∃ w it db, (s.step x).2.iterators = s.iterators ++ [w] ∧ dbAt s.native h.ref = some db ∧
      (s.step x).2.native.find .iterator w.ref = some (.iterator it true) ∧
      it.dbId = db.id ∧ it.snapshot = s.native.content db.dir
  /-- `closed()` tells whether its own database is gone. -/
  closed : ∀ i h, x.1 = .closed i → s.dbs[i]? = some h →
    (s.closed h = true ∧ s.native.objAt .db h.ref = none) ∨
      s.closed h = false ∧ ∃ o, h.obj = some o ∧ s.native.objAt .db h.ref = some o

/-- A call throws, or it keeps to the objects of its wrappers. -/
def ActsOnOwn (s : Process) (x : Call × Faults) : Prop :=
  (∃ e, (s.step x).1 = .throw e) ∨ s.OnOwn x

/-- Both, for every call of a run. -/
def Truthful (s : Process) : Event → Prop
  | .call x => s.ConstructsTruthfully x ∧ s.ActsOnOwn x
  | .reload _ _ => True

lemma Inv.of_initError (h : s.Inv) (e : Option Bytes) :
    Inv { s with nativeModuleInitError := e } where
  refs := ⟨h.refs.names, h.refs.bound, h.refs.listed⟩
  dbs := ⟨h.dbs.ids, h.dbs.gens, h.dbs.handles⟩
  iterators := ⟨h.iterators.ids, h.iterators.gens, h.iterators.handles⟩
  batches := ⟨h.batches.ids, h.batches.gens, h.batches.lt, h.batches.distinct, h.batches.handles⟩

lemma Inv.event (h : s.Inv) (e : Event) (hsafe : s.ReloadSafe e) : (s.event e).2.Inv := by
  match e with
  | .call x => exact h.step x.2 hsafe.1.usesCurrent
  | .reload documentDir .installed =>
    exact h.cleared hsafe (w := installLeveldb s.native documentDir) rfl rfl rfl rfl rfl
  | .reload _ .returnedFalse => exact h.of_initError _
  | .reload _ (.threw message) => exact h.of_initError _

/-- A method that does not throw has found something behind each of its references. -/
lemma objAt_ne_none {x : Call × Faults} (hnull : s.NoNullCompare x.1)
    (hthrow : ¬ ∃ e, (s.step x).1 = .throw e) {u : Kind × Handle} (hu : u ∈ x.1.uses s) :
    s.native.objAt u.1 u.2.ref ≠ none := by
  intro hnone
  obtain ⟨e, he⟩ | ⟨i, target, hc, -⟩ := step_of_empty hu hnone x.2
  · exact hthrow ⟨e, by rw [he]⟩
  · exact hnull i target hc u hu hnone

/-- A wrapper without an object behind it is told closed, one of the current generation finds
its own database or is told closed. -/
lemma Inv.closed_cases (h : s.Inv) {w : LevelDB} (hw : w ∈ s.dbs)
    (hcur : w.gen = s.native.gen ∨ s.native.objAt .db w.ref = none) :
    (s.closed w = true ∧ s.native.objAt .db w.ref = none) ∨
      s.closed w = false ∧ ∃ o, w.obj = some o ∧ s.native.objAt .db w.ref = some o := by
  rcases hcur with hgen | hnone
  · obtain ⟨o, hok⟩ := h.dbs.handles w hw hgen
    by_cases hlive : s.native.dbs.Live Db.id o
    · refine Or.inr ⟨?_, o, hok.obj, hok.holder.tracks.find_of_live hlive⟩
      rw [← Bool.not_eq_true, closed_iff h.refs hok]
      exact not_not_intro hlive
    · refine Or.inl ⟨(closed_iff h.refs hok).mpr hlive, ?_⟩
      by_contra hne
      have hat : s.native.objAt .db w.ref = some o := hok.holder.tracks.find_eq hne
      exact hlive (World.live_of_objAt hat)
  · refine Or.inl ⟨?_, hnone⟩
    unfold Process.closed
    split
    · rfl
    · -- a reference that is listed finds a database
      rw [Bool.not_eq_true', List.contains_eq_mem, decide_eq_false_iff_not]
      intro hmem
      obtain ⟨e, he, heq⟩ := List.mem_map.mp hmem
      obtain ⟨k, db, hk, hdb, -⟩ := h.refs.bound e he
      rw [← heq, hk] at hnone
      simp [World.objAt, refIdx_natCast, hdb] at hnone

/-- The wrapper `newIterator` hands out. -/
lemma step_newIterator_ret {i : ℕ} {h : LevelDB} {f : Faults} {v : JsValue} {on : List Obj}
    (hi : s.dbs[i]? = some h) (hret : (s.step (.newIterator i, f)).1 = .ret v on) :
    ∃ w it db, (s.step (.newIterator i, f)).2.iterators = s.iterators ++ [w] ∧
      dbAt s.native h.ref = some db ∧
      (s.step (.newIterator i, f)).2.native.find .iterator w.ref = some (.iterator it true) ∧
      it.dbId = db.id ∧ it.snapshot = s.native.content db.dir := by
  have hstep : s.step (.newIterator i, f) = s.newIterator h := by
    dsimp only [step]
    rw [on_some hi]
  rw [hstep] at hret ⊢
  unfold newIterator at hret ⊢
  split at hret
  · cases hret
  · next hdef =>
    obtain ⟨e, hn⟩ | ⟨k, db, hk, hdb, hn⟩ := withDb_cases s.native .leveldbNewIterator h.ref _
    · rw [leveldbNewIterator, hn] at hret
      cases hret
    · rw [if_neg hdef, leveldbNewIterator, hn]
      refine ⟨_, { id := s.native.nextId, slot := slotOf h.ref, dbId := db.id,
                   snapshot := s.native.content db.dir }, db, rfl,
        by rw [dbAt, hk]; exact hdb, ?_, rfl, rfl⟩
      dsimp only [World.find]
      rw [refIdx_natCast, Option.bind_some, SlotTable.get_push, if_pos rfl, Option.map_some]
      simp [World.hasDb, slotOf_of_refIdx hk, hdb]

/-- A method whose wrappers find their own objects keeps to them. -/
lemma onOwn_of_finds (h : s.Inv) {x : Call × Faults} (hcur : s.ThroughCurrent x.1)
    (hthrow : ∀ e, (s.step x).1 ≠ .throw e)
    (hgen : ∀ u ∈ x.1.uses s, u.2.gen = s.native.gen)
    (hown : ∀ u ∈ x.1.uses s, ∃ o, u.2.obj = some o ∧ s.native.objAt u.1 u.2.ref = some o) :
    s.OnOwn x where
  finds := hown
  names w hw hu := by
    obtain ⟨o, hok⟩ := h.dbs.handles w hw (hgen _ hu)
    obtain ⟨o', -, hat⟩ := hown _ hu
    obtain ⟨db, hdb, -⟩ := Option.map_eq_some_iff.mp hat
    refine ⟨db, hdb, ?_⟩
    obtain ⟨k, hk, hget⟩ := Option.bind_eq_some_iff.mp hdb
    have htr := hok.holder.tracks
    rw [hk] at htr
    exact hok.name hget (htr.get_id hget)
  acts v on hret hne hne' := by
    rw [step_on hne hne' hret]
    refine List.map_congr_left fun u hu => ?_
    obtain ⟨o, hobj, hat⟩ := hown u hu
    rw [hobj, hat]
  frame := (step_effect s x.1 x.2).frame
  depends t hne huses hfind := by
    have halike : ∀ u ∈ x.1.uses s, s.native.FindsAlike t.native u.1 u.2.ref := by
      intro u hu
      obtain ⟨o, -, hat⟩ := hown u hu
      exact ⟨World.find_ne_none (by rw [hat]; exact Option.some_ne_none o), hfind u hu⟩
    have hstep := step_alike x.2 hne hthrow huses halike
    exact ⟨hstep.1, fun u hu => hstep.2 u.1 u.2.ref (halike u hu)⟩
  iterates i w v on hc hi hret := by
    obtain ⟨c, f⟩ := x
    dsimp only at hc
    subst hc
    exact step_newIterator_ret hi hret
  closed i w hc hi := by
    refine h.closed_cases (List.mem_of_getElem? hi) (hcur (.db, w.toHandle) ?_)
    rw [hc]
    simp [wrappers, hi]

lemma Inv.actsOnOwn (h : s.Inv) {x : Call × Faults} (hcur : s.ThroughCurrent x.1)
    (hnull : s.NoNullCompare x.1) : s.ActsOnOwn x := by
  by_cases hthrow : ∃ e, (s.step x).1 = .throw e
  · exact Or.inl hthrow
  -- what does not throw has found something, and so uses wrappers of this generation only
  have hfound := fun u (hu : u ∈ x.1.uses s) => objAt_ne_none hnull hthrow hu
  have hgen : ∀ u ∈ x.1.uses s, u.2.gen = s.native.gen := fun u hu =>
    (hcur.usesCurrent u hu).resolve_right (hfound u hu)
  exact Or.inr (onOwn_of_finds h hcur (not_exists.mp hthrow) hgen
    fun u hu => h.objAt_eq hu (hgen u hu) (hfound u hu))

lemma Inv.constructsTruthfully (h : s.Inv) (x : Call × Faults) : s.ConstructsTruthfully x := by
  obtain ⟨c, f⟩ := x
  rintro name c' e rfl v on hret
  obtain ⟨w, k, db, hdbs, -, href, hdb, hname, -⟩ := step_newLevelDB_ret h.refs hret
  refine ⟨w, k, db, ?_, href, hdb, hname⟩
  rw [hdbs]
  exact List.getLast?_concat

/-- The constructor of a bound name opens nothing: its wrapper takes the recorded index. -/
lemma newLevelDB_of_bound {name : JsString} {ref : JsValue} (hinit : s.nativeModuleInitError = none)
    (href : openRef s.openRefs name = some ref) (f : Faults) (c e : Bool) :
    s.newLevelDB f name c e = (.ret .object [], { s with dbs := s.dbs ++
      [{ ref := ref, obj := (dbAt s.native ref).map Db.id, gen := s.native.gen,
         name := name }] }) := by
  unfold newLevelDB
  simp only [hinit, Option.filter_none, href]

/-- Each name that is bound at a reload is lost by it: its constructor returns, with a
reference that finds nothing. -/
theorem not_constructsTruthfully_of_bound {name : JsString}
    (hbound : openRef s.openRefs name ≠ none) (documentDir : Bytes) (c e : Bool) (f : Faults) :
    ¬ (s.evalModule documentDir .installed).ConstructsTruthfully (.newLevelDB name c e, f) := by
  intro htruthful
  obtain ⟨ref, href⟩ := Option.ne_none_iff_exists'.mp hbound
  -- `openRefs` survives the reload, so nothing is opened
  have hrefs : openRef (s.evalModule documentDir .installed).openRefs name = some ref := href
  have hstep : (s.evalModule documentDir .installed).step (.newLevelDB name c e, f) = _ :=
    newLevelDB_of_bound rfl hrefs f c e
  obtain ⟨h, k, db, -, -, hdb, -⟩ := htruthful name c e rfl .object [] (by rw [hstep])
  rw [hstep] at hdb
  have hempty : (installLeveldb s.native documentDir).dbs.get k = none := SlotTable.get_empty k
  have hget : (installLeveldb s.native documentDir).dbs.get k = some db := hdb
  rw [hempty] at hget
  cases hget

/-- **Handles stay truthful as long as reloads find nothing open.** In every run of calls and
reloads all of which are safe, every constructor that returns refers to the database of its
name, and every method that does not throw acts on the objects its wrappers were constructed
for: it finds them, changes nothing else and goes by nothing else. -/
theorem handles_truthful (disk : Dir → Option Content) (documentDir : Bytes) (es : List Event)
    (hsafe : Machine.Along event ReloadSafe (start disk documentDir) es) :
    Machine.Along event Truthful (start disk documentDir) es := by
  refine Machine.along_of_inv (I := Inv) (fun s e h hs => h.event e hs) (fun s e h hs => ?_)
    (inv_start disk documentDir) hsafe
  match e with
  | .call x => exact ⟨h.constructsTruthfully x, h.actsOnOwn hs.1 hs.2⟩
  | .reload _ _ => trivial

/-- A database is closed before a reload and opened again after it. -/
theorem handles_truthful_close_first :
    Machine.Along event Truthful (start (fun _ => none) (ascii "/d"))
      [.call (.newLevelDB [] true false, {}), .call (.close 0, {}),
        .reload (ascii "/d") .installed, .call (.newLevelDB [] true false, {}),
        .call (.getBuf 1 (.string []), {})] := by
  refine handles_truthful (fun _ => none) (ascii "/d") _
    ⟨⟨?_, ?_⟩, ⟨?_, ?_⟩, rfl, ⟨?_, ?_⟩, ⟨?_, ?_⟩, trivial⟩
  · exact fun u hu => (List.not_mem_nil hu).elim
  · exact fun i target h => by cases h
  · intro u hu
    obtain rfl := List.mem_singleton.mp hu
    exact Or.inl rfl
  · exact fun i target h => by cases h
  · exact fun u hu => (List.not_mem_nil hu).elim
  · exact fun i target h => by cases h
  · intro u hu
    obtain rfl := List.mem_singleton.mp hu
    exact Or.inl rfl
  · exact fun i target h => by cases h

/-- A reload with an open database: the constructor of its name returns, and the slot its
reference names does not exist. -/
theorem reload_while_open_not_truthful :
    ¬ Machine.Along event Truthful (start (fun _ => none) (ascii "/d"))
      [.call (.newLevelDB [] true false, {}), .reload (ascii "/d") .installed,
        .call (.newLevelDB [] true false, {})] := by
  rintro ⟨-, -, ⟨hnew, -⟩, -⟩
  obtain ⟨h, k, db, hlast, href, hdb, -⟩ := hnew [] true false rfl .object [] rfl
  have hempty : ∀ w : World, w.dbs = SlotTable.empty → w.dbs.get k = none := by
    intro w hw
    rw [hw, SlotTable.get_empty]
  rw [hempty _ rfl] at hdb
  cases hdb

end Process

end RnLeveldb
