import RnLeveldb.UseAfterClose

/-!
# Successive runtimes

A process sees several JavaScript runtimes, one after the other. Each installs the bindings
and uses them; the notification that an old runtime is torn down calls `cleanupLeveldb`, and
may be delivered at any point relative to the install and the calls of the next one. The
registries are not tagged by runtime, so a late notification clears what the new runtime has
opened.

The handles of the current runtime stay good in a run in which every late notification finds
nothing open. What a runtime has closed itself is told from the past of the run, by the
identity of the object.
-/

namespace RnLeveldb

/-- The process over the lifetimes of its runtimes: `process` is the native state with the
JavaScript state of the latest runtime. -/
structure Runtimes where
  process : Process
  /-- The number of the latest runtime. -/
  latest : ℕ
  /-- The runtimes whose teardown has been delivered. -/
  tornDown : List ℕ

inductive RuntimeEvent where
  /-- A new runtime evaluates `index.ts`. -/
  | install (documentDir : Bytes)
  /-- A call by the latest runtime. -/
  | call (x : Call × Faults)
  /-- `onCatalystInstanceDestroy` or `invalidate` of a runtime. -/
  | teardown (runtime : ℕ)

namespace Process

variable {s s' : Process} {x : Call × Faults} {c : Call} {o : ℕ}

/-! ## What a call closes -/

/-- An iterator that is gone after a call has been closed by it. -/
lemma live_or_closesIterator (h : s.Inv) (hcur : s.UsesCurrent x.1)
    (hlive : s.native.iterators.Live Iterator.id o) :
    (s.step x).2.native.iterators.Live Iterator.id o ∨ ClosesIterator o s x := by
  obtain ⟨c, f⟩ := x
  have heff := step_effect s c f
  generalize hs' : (s.step (c, f)).2 = s' at heff
  cases heff with
  | newIterator => exact Or.inl (hlive.push _)
  | moved i k m w it it' hi hk hit hid => exact Or.inl (hlive.update hit hid)
  | closedIterator i k w it hi hk hit =>
    rcases hlive.reset k with hlive | ⟨it', hit', hid⟩
    · exact Or.inl hlive
    · refine Or.inr ?_
      have huse : (Kind.iterator, w.toHandle) ∈ (Call.iterator i .close).uses s := by
        simp [Call.uses, hi]
      have hgen : w.gen = s.native.gen := hcur.gen_eq huse (by simp [World.objAt, hk, hit])
      obtain ⟨o', d, hok⟩ := h.iterators.handles w (List.mem_of_getElem? hi) hgen
      have htr := hok.holder.tracks
      rw [hk] at htr
      have hobj : w.obj = some o := by rw [hok.obj, ← htr.get_id hit', hid]
      rcases step_iteratorClose_cases hi f with ⟨hsame, -⟩ | ⟨_, _, _, _, hret, -⟩
      · -- the step has emptied the slot, so it has returned
        rw [hsame] at hs'
        have hgone := congrArg (fun s => s.native.iterators.get k) hs'
        dsimp only at hgone
        rw [hit, SlotTable.get_reset, if_pos rfl] at hgone
        cases hgone
      · exact ⟨i, w, _, _, rfl, hi, hobj, hret⟩
  | stored | openFailed | opened | shared | closed | destroyed | forceClosed | newBatch
  | appended | closedBatch => exact Or.inl hlive

lemma live_or_closesBatch (h : s.Inv) (hcur : s.UsesCurrent x.1)
    (hlive : s.native.batches.Live WriteBatch.id o) :
    (s.step x).2.native.batches.Live WriteBatch.id o ∨ ClosesBatch o s x := by
  obtain ⟨c, f⟩ := x
  have heff := step_effect s c f
  generalize hs' : (s.step (c, f)).2 = s' at heff
  cases heff with
  | newBatch => exact Or.inl (hlive.alloc _)
  | appended c i k w b op hc hi hk hb => exact Or.inl (hlive.update hb rfl)
  | closedBatch i k w b hi hk hb =>
    rcases hlive.reset k with hlive | ⟨b', hb', hid⟩
    · exact Or.inl hlive
    · refine Or.inr ?_
      have huse : (Kind.batch, w.toHandle) ∈ (Call.batchClose i).uses s := by
        simp [Call.uses, hi]
      have hgen : w.gen = s.native.gen := hcur.gen_eq huse (by simp [World.objAt, hk, hb])
      obtain ⟨o', hok⟩ := h.batches.handles w (List.mem_of_getElem? hi) hgen
      have htr := hok.holder.tracks
      rw [hk] at htr
      have hobj : w.obj = some o := by rw [hok.obj, ← htr.get_id hb', hid]
      rcases step_batchClose_cases hi f with ⟨hsame, -⟩ | ⟨_, _, _, _, hret, -⟩
      · -- as for iterators
        rw [hsame] at hs'
        have hgone := congrArg (fun s => s.native.batches.get k) hs'
        dsimp only at hgone
        rw [hb, SlotTable.get_reset, if_pos rfl] at hgone
        cases hgone
      · exact ⟨i, w, _, _, rfl, hi, hobj, hret⟩
  | stored | openFailed | opened | shared | closed | destroyed | forceClosed | newIterator
  | moved | closedIterator => exact Or.inl hlive

/-! ## New wrappers -/

lemma Effect.gen_eq (heff : Effect s c s') : s'.native.gen = s.native.gen := by
  cases heff <;> rfl

lemma Effect.mem_iterators (heff : Effect s c s') {h' : LevelDBIterator}
    (hmem : h' ∈ s'.iterators) :
    (∃ h ∈ s.iterators, h.obj = h'.obj ∧ h.gen = h'.gen) ∨
      ∃ o, h'.obj = some o ∧ h'.gen = s.native.gen ∧
        s'.native.iterators.Live Iterator.id o := by
  cases heff with
  | newIterator i k w db =>
    rcases List.mem_append.mp hmem with hmem | hmem
    · exact Or.inl ⟨h', hmem, rfl, rfl⟩
    · rw [List.mem_singleton.mp hmem]
      refine Or.inr ⟨_, rfl, rfl, s.native.iterators.size,
        { id := s.native.nextId, slot := k, dbId := db.id,
          snapshot := s.native.content db.dir }, ?_, rfl⟩
      dsimp only
      rw [SlotTable.get_push, if_pos rfl]
  | closedIterator j k w it hj =>
    rcases List.mem_or_eq_of_mem_set hmem with hmem | rfl
    · exact Or.inl ⟨h', hmem, rfl, rfl⟩
    · exact Or.inl ⟨w, List.mem_of_getElem? hj, rfl, rfl⟩
  | stored | openFailed | opened | shared | closed | destroyed | forceClosed | moved | newBatch
  | appended | closedBatch => exact Or.inl ⟨h', hmem, rfl, rfl⟩

lemma Effect.mem_batches (heff : Effect s c s') {h' : LevelDBWriteBatch}
    (hmem : h' ∈ s'.batches) :
    (∃ h ∈ s.batches, h.obj = h'.obj ∧ h.gen = h'.gen) ∨
      ∃ o, h'.obj = some o ∧ h'.gen = s.native.gen ∧
        s'.native.batches.Live WriteBatch.id o := by
  cases heff with
  | newBatch =>
    rcases List.mem_append.mp hmem with hmem | hmem
    · exact Or.inl ⟨h', hmem, rfl, rfl⟩
    · rw [List.mem_singleton.mp hmem]
      refine Or.inr ⟨_, rfl, rfl,
        (s.native.batches.alloc { id := s.native.nextId, ops := [] }).1,
        { id := s.native.nextId, ops := [] }, ?_, rfl⟩
      dsimp only
      rw [SlotTable.get_alloc, if_pos rfl]
  | closedBatch j k w b hj =>
    rcases List.mem_or_eq_of_mem_set hmem with hmem | rfl
    · exact Or.inl ⟨h', hmem, rfl, rfl⟩
    · exact Or.inl ⟨w, List.mem_of_getElem? hj, rfl, rfl⟩
  | stored | openFailed | opened | shared | closed | destroyed | forceClosed | newIterator
  | moved | closedIterator | appended => exact Or.inl ⟨h', hmem, rfl, rfl⟩

/-- No database, iterator or batch of the runtime is open. -/
def NothingOpen (s : Process) : Prop :=
  s.openRefs = [] ∧ (∀ h ∈ s.iterators, h.ref = .number (-1)) ∧
    ∀ h ∈ s.batches, h.ref = .number (-1)

end Process

/-! ## Runs over several runtimes -/

namespace Runtimes

open Process (ClosesDb ClosesIterator ClosesBatch)

/-- Each runtime is torn down at most once. -/
def step (r : Runtimes) : RuntimeEvent → Option Outcome × Runtimes
  | .install documentDir =>
    ((cleanupCrash r.process.native).map .crash, { r with
      process := (Process.fresh r.process.native).evalModule documentDir .installed
      latest := r.latest + 1 })
  | .call x => (some (r.process.step x).1, { r with process := (r.process.step x).2 })
  | .teardown k =>
    if k ≤ r.latest ∧ k ∉ r.tornDown then
      ((cleanupCrash r.process.native).map .crash, { r with
        process := { r.process with native := cleanupLeveldb r.process.native }
        tornDown := k :: r.tornDown })
    else (none, r)

/-- The first runtime has installed the bindings. -/
def start (disk : Dir → Option Content) (documentDir : Bytes) : Runtimes :=
  { process := Process.start disk documentDir, latest := 0, tornDown := [] }

/-- The latest runtime has not been torn down. -/
def Alive (r : Runtimes) : Prop := r.latest ∉ r.tornDown

instance (r : Runtimes) : Decidable r.Alive :=
  inferInstanceAs (Decidable (r.latest ∉ r.tornDown))

/-- The event is a call with the given property. -/
def Calls (E : Process → Call × Faults → Prop) (r : Runtimes) : RuntimeEvent → Prop
  | .call x => E r.process x
  | _ => False

/-- A handle of the latest runtime denotes its object, or the runtime has closed it. -/
structure HandlesDenote (r₀ : Runtimes) (es : List RuntimeEvent) : Prop where
  dbs : ∀ h ∈ (Machine.run step r₀ es).process.dbs, ∃ o, h.obj = some o ∧
    (Machine.Once step (Calls (ClosesDb h.name o)) r₀ es ∨
      (Machine.run step r₀ es).process.native.objAt .db h.ref = some o)
  iterators : ∀ h ∈ (Machine.run step r₀ es).process.iterators, ∃ o, h.obj = some o ∧
    (Machine.Once step (Calls (ClosesIterator o)) r₀ es ∨
      (Machine.run step r₀ es).process.native.objAt .iterator h.ref = some o)
  batches : ∀ h ∈ (Machine.run step r₀ es).process.batches, ∃ o, h.obj = some o ∧
    (Machine.Once step (Calls (ClosesBatch o)) r₀ es ∨
      (Machine.run step r₀ es).process.native.objAt .batch h.ref = some o)

/-- The condition on the events of a run: while the latest runtime lives, the teardown of an
earlier one is delivered only when the latest has nothing open, and the latest uses no
wrapper from before such a teardown on an index that is taken again. -/
def TeardownSafe (r : Runtimes) : RuntimeEvent → Prop
  | .install _ => True
  | .call x => r.Alive → r.process.UsesCurrent x.1
  | .teardown k => r.Alive → k < r.latest → k ∉ r.tornDown → r.process.NothingOpen

variable {r₀ : Runtimes} {es : List RuntimeEvent}

/-- The handle's object has been closed, or it belongs to the current generation and is in
its table. -/
def Kept {α : Type} (id : α → ℕ) (t : SlotTable α) (gen : ℕ) (closed : ℕ → Prop)
    (h : Handle) : Prop :=
  ∃ o, h.obj = some o ∧ (closed o ∨ h.gen = gen ∧ t.Live id o)

section Kept

variable {α : Type} {id : α → ℕ} {t t' : SlotTable α} {gen gen' : ℕ} {closed closed' : ℕ → Prop}
  {w w' : Handle} {o : ℕ}

/-- A wrapper that was there before an event. -/
lemma Kept.of_old (h : Kept id t gen closed w) (hobj : w.obj = w'.obj) (hg : w.gen = w'.gen)
    (hgen : gen' = gen) (hcl : ∀ o, closed o → closed' o)
    (hlive : ∀ o, w.obj = some o → w.gen = gen → t.Live id o → closed' o ∨ t'.Live id o) :
    Kept id t' gen' closed' w' := by
  obtain ⟨o, ho, hclosed | ⟨hg', hl⟩⟩ := h
  · exact ⟨o, hobj.symm.trans ho, Or.inl (hcl o hclosed)⟩
  · refine ⟨o, hobj.symm.trans ho, ?_⟩
    rcases hlive o ho hg' hl with hclosed | hl'
    · exact Or.inl hclosed
    · exact Or.inr ⟨(hg.symm.trans hg').trans hgen.symm, hl'⟩

/-- A wrapper that has just been constructed. -/
lemma Kept.of_new (h : ∃ o, w.obj = some o ∧ w.gen = gen ∧ t'.Live id o) (hgen : gen' = gen) :
    Kept id t' gen' closed w := by
  obtain ⟨o, ho, hg, hlive⟩ := h
  exact ⟨o, ho, Or.inr ⟨hg.trans hgen.symm, hlive⟩⟩

/-- A holder of a kept handle finds its object unless it has been closed. -/
lemma Kept.find (h : Kept id t gen closed w)
    (hok : w.gen = gen → ∃ o, w.obj = some o ∧ t.Tracks id (refIdx w.ref) o) :
    ∃ o, w.obj = some o ∧ (closed o ∨ ((refIdx w.ref).bind t.get).map id = some o) := by
  obtain ⟨o, ho, hclosed | ⟨hg, hlive⟩⟩ := h
  · exact ⟨o, ho, Or.inl hclosed⟩
  · obtain ⟨o', ho', htr⟩ := hok hg
    rw [Option.some.inj (ho'.symm.trans ho)] at htr
    exact ⟨o, ho, Or.inr (htr.find_of_live hlive)⟩

end Kept

/-- What is kept along a safe run while the latest runtime lives. -/
structure KeptAll (r₀ : Runtimes) (es : List RuntimeEvent) : Prop where
  inv : (Machine.run step r₀ es).process.Inv
  dbs : ∀ h ∈ (Machine.run step r₀ es).process.dbs,
    Kept Db.id (Machine.run step r₀ es).process.native.dbs
      (Machine.run step r₀ es).process.native.gen
      (fun o => Machine.Once step (Calls (ClosesDb h.name o)) r₀ es) h.toHandle
  iterators : ∀ h ∈ (Machine.run step r₀ es).process.iterators,
    Kept Iterator.id (Machine.run step r₀ es).process.native.iterators
      (Machine.run step r₀ es).process.native.gen
      (fun o => Machine.Once step (Calls (ClosesIterator o)) r₀ es) h.toHandle
  batches : ∀ h ∈ (Machine.run step r₀ es).process.batches,
    Kept WriteBatch.id (Machine.run step r₀ es).process.native.batches
      (Machine.run step r₀ es).process.native.gen
      (fun o => Machine.Once step (Calls (ClosesBatch o)) r₀ es) h.toHandle

/-- What has happened has happened. -/
lemma once_snoc_left {E : Runtimes → RuntimeEvent → Prop} (e : RuntimeEvent)
    (h : Machine.Once step E r₀ es) : Machine.Once step E r₀ (es ++ [e]) :=
  (Machine.once_snoc step E r₀ es e).mpr (Or.inl h)

/-- A call keeps what the runtime has not closed. -/
lemma KeptAll.call (h : KeptAll r₀ es) {x : Call × Faults}
    (hcur : (Machine.run step r₀ es).process.UsesCurrent x.1) :
    KeptAll r₀ (es ++ [.call x]) := by
  have heff := Process.step_effect (Machine.run step r₀ es).process x.1 x.2
  have hgen := heff.gen_eq
  have hnow : ∀ {E : Process → Call × Faults → Prop}, E (Machine.run step r₀ es).process x →
      Machine.Once step (Calls E) r₀ (es ++ [.call x]) :=
    fun hE => (Machine.once_snoc step _ r₀ es _).mpr (Or.inr hE)
  constructor <;> rw [Machine.run_snoc]
  · exact h.inv.step x.2 hcur
  · intro w hw
    rcases heff.mem_dbs h.inv.refs hw with ⟨w', hw', hobj, hg, hname⟩ | hnew
    · refine (h.dbs w' hw').of_old hobj hg hgen (fun o ho => ?_) fun o ho hg' hlive => ?_
      · rw [← hname]
        exact once_snoc_left _ ho
      · -- the object is still there, or this call has closed it under the wrapper's name
        obtain ⟨k, db, hdb, rfl⟩ := hlive
        obtain ⟨o', hok⟩ := h.inv.dbs.handles w' hw' hg'
        have hid : db.id = o' := Option.some.inj (ho.symm.trans hok.obj)
        rcases Process.live_or_closesDb h.inv hcur hdb with hstill | hcl
        · exact Or.inr ⟨k, db, hstill, rfl⟩
        · rw [hok.name hdb hid, hname] at hcl
          exact Or.inl (hnow hcl)
    · exact Kept.of_new hnew hgen
  · intro w hw
    rcases heff.mem_iterators hw with ⟨w', hw', hobj, hg⟩ | hnew
    · refine (h.iterators w' hw').of_old hobj hg hgen (fun o => once_snoc_left _)
        fun o _ _ hlive => ?_
      rcases Process.live_or_closesIterator h.inv hcur hlive with hstill | hcl
      · exact Or.inr hstill
      · exact Or.inl (hnow hcl)
    · exact Kept.of_new hnew hgen
  · intro w hw
    rcases heff.mem_batches hw with ⟨w', hw', hobj, hg⟩ | hnew
    · refine (h.batches w' hw').of_old hobj hg hgen (fun o => once_snoc_left _)
        fun o _ _ hlive => ?_
      rcases Process.live_or_closesBatch h.inv hcur hlive with hstill | hcl
      · exact Or.inr hstill
      · exact Or.inl (hnow hcl)
    · exact Kept.of_new hnew hgen

/-- A fresh runtime has no handles. -/
lemma keptAll_install (documentDir : Bytes) : KeptAll r₀ (es ++ [.install documentDir]) := by
  constructor <;> rw [Machine.run_snoc]
  · exact Process.inv_fresh
      (w := installLeveldb (Machine.run step r₀ es).process.native documentDir) rfl rfl rfl
  · exact fun h hh => (List.not_mem_nil hh).elim
  · exact fun h hh => (List.not_mem_nil hh).elim
  · exact fun h hh => (List.not_mem_nil hh).elim

/-- An event without effect changes nothing. -/
lemma KeptAll.idle (h : KeptAll r₀ es) {e : RuntimeEvent}
    (hidle : ((Machine.run step r₀ es).step e).2 = Machine.run step r₀ es) :
    KeptAll r₀ (es ++ [e]) := by
  constructor <;> rw [Machine.run_snoc, hidle]
  · exact h.inv
  · exact fun w hw => (h.dbs w hw).of_old rfl rfl rfl (fun _ => once_snoc_left e)
      fun _ _ _ hlive => Or.inr hlive
  · exact fun w hw => (h.iterators w hw).of_old rfl rfl rfl (fun _ => once_snoc_left e)
      fun _ _ _ hlive => Or.inr hlive
  · exact fun w hw => (h.batches w hw).of_old rfl rfl rfl (fun _ => once_snoc_left e)
      fun _ _ _ hlive => Or.inr hlive

lemma KeptAll.iterator_tracks (h : KeptAll r₀ es) {w : LevelDBIterator}
    (hw : w ∈ (Machine.run step r₀ es).process.iterators)
    (hg : w.gen = (Machine.run step r₀ es).process.native.gen) :
    ∃ o, w.obj = some o ∧
      (Machine.run step r₀ es).process.native.iterators.Tracks Iterator.id (refIdx w.ref) o := by
  obtain ⟨o, d, hok⟩ := h.inv.iterators.handles w hw hg
  exact ⟨o, hok.obj, hok.holder.tracks⟩

lemma KeptAll.batch_tracks (h : KeptAll r₀ es) {w : LevelDBWriteBatch}
    (hw : w ∈ (Machine.run step r₀ es).process.batches)
    (hg : w.gen = (Machine.run step r₀ es).process.native.gen) :
    ∃ o, w.obj = some o ∧
      (Machine.run step r₀ es).process.native.batches.Tracks WriteBatch.id (refIdx w.ref) o := by
  obtain ⟨o, hok⟩ := h.inv.batches.handles w hw hg
  exact ⟨o, hok.obj, hok.holder.tracks⟩

/-- A late teardown that finds nothing open: every handle has been closed by then. -/
lemma KeptAll.teardown (h : KeptAll r₀ es) {k : ℕ} (hk : k ≤ (Machine.run step r₀ es).latest)
    (hnew : k ∉ (Machine.run step r₀ es).tornDown)
    (hno : (Machine.run step r₀ es).process.NothingOpen) :
    KeptAll r₀ (es ++ [.teardown k]) := by
  obtain ⟨hrefs, hits, hbs⟩ := hno
  have hrun : ((Machine.run step r₀ es).step (.teardown k)).2.process =
      { (Machine.run step r₀ es).process with
        native := cleanupLeveldb (Machine.run step r₀ es).process.native } := by
    simp only [step, hk, hnew, not_false_eq_true, and_self, if_true]
  constructor <;> rw [Machine.run_snoc, hrun]
  · exact h.inv.cleared hrefs rfl rfl rfl rfl rfl
  · intro w hw
    obtain ⟨o, ho, hclosed | ⟨-, j, db, hdb, -⟩⟩ := h.dbs w hw
    · exact ⟨o, ho, Or.inl (once_snoc_left _ hclosed)⟩
    · -- an open database would be listed in `openRefs`
      have hlisted := h.inv.refs.listed hdb
      rw [hrefs] at hlisted
      exact (List.not_mem_nil hlisted).elim
  · intro w hw
    have href : refIdx w.ref = none := by rw [hits w hw]; rfl
    obtain ⟨o, ho, hclosed | hfind⟩ := (h.iterators w hw).find (h.iterator_tracks hw)
    · exact ⟨o, ho, Or.inl (once_snoc_left _ hclosed)⟩
    · rw [href] at hfind
      cases hfind
  · intro w hw
    have href : refIdx w.ref = none := by rw [hbs w hw]; rfl
    obtain ⟨o, ho, hclosed | hfind⟩ := (h.batches w hw).find (h.batch_tracks hw)
    · exact ⟨o, ho, Or.inl (once_snoc_left _ hclosed)⟩
    · rw [href] at hfind
      cases hfind

lemma KeptAll.handlesDenote (h : KeptAll r₀ es) : HandlesDenote r₀ es where
  dbs w hw := (h.dbs w hw).find fun hg => by
    obtain ⟨o, hok⟩ := h.inv.dbs.handles w hw hg
    exact ⟨o, hok.obj, hok.holder.tracks⟩
  iterators w hw := (h.iterators w hw).find (h.iterator_tracks hw)
  batches w hw := (h.batches w hw).find (h.batch_tracks hw)

/-! ## The result -/

/-- The invariant of a safe run. -/
structure RunOk (r₀ : Runtimes) (es : List RuntimeEvent) : Prop where
  le : ∀ k ∈ (Machine.run step r₀ es).tornDown, k ≤ (Machine.run step r₀ es).latest
  kept : (Machine.run step r₀ es).Alive → KeptAll r₀ es

lemma RunOk.snoc (h : RunOk r₀ es) (e : RuntimeEvent)
    (hsafe : (Machine.run step r₀ es).TeardownSafe e) : RunOk r₀ (es ++ [e]) := by
  match e with
  | .install documentDir =>
    refine ⟨?_, fun _ => keptAll_install documentDir⟩
    rw [Machine.run_snoc]
    intro k hk
    exact Nat.le_succ_of_le (h.le k hk)
  | .call x =>
    refine ⟨?_, fun halive => ?_⟩
    · rw [Machine.run_snoc]
      exact h.le
    · rw [Machine.run_snoc] at halive
      exact (h.kept halive).call (hsafe halive)
  | .teardown k =>
    -- the second teardown of a runtime, or one of a runtime yet to come, does nothing
    by_cases hnew : k ≤ (Machine.run step r₀ es).latest ∧ k ∉ (Machine.run step r₀ es).tornDown
    · have hrun : ((Machine.run step r₀ es).step (.teardown k)).2.tornDown =
          k :: (Machine.run step r₀ es).tornDown ∧
          ((Machine.run step r₀ es).step (.teardown k)).2.latest =
            (Machine.run step r₀ es).latest := by
        simp only [step, hnew, not_false_eq_true, and_self, if_true]
      refine ⟨?_, fun halive => ?_⟩
      · rw [Machine.run_snoc, hrun.1, hrun.2]
        intro j hj
        rcases List.mem_cons.mp hj with rfl | hj
        · exact hnew.1
        · exact h.le j hj
      · rw [Machine.run_snoc, Alive, hrun.1, hrun.2, List.mem_cons, not_or] at halive
        -- the latest runtime lives on, so it is an earlier one that is torn down
        have hlt : k < (Machine.run step r₀ es).latest :=
          lt_of_le_of_ne hnew.1 (Ne.symm halive.1)
        exact (h.kept halive.2).teardown hnew.1 hnew.2 (hsafe halive.2 hlt hnew.2)
    · have hidle : ((Machine.run step r₀ es).step (.teardown k)).2 = Machine.run step r₀ es := by
        simp only [step, if_neg hnew]
      refine ⟨?_, fun halive => ?_⟩
      · rw [Machine.run_snoc, hidle]
        exact h.le
      · rw [Machine.run_snoc, hidle] at halive
        exact (h.kept halive).idle hidle

/-- **Late teardowns that find nothing open are harmless.** After every run whose events are
safe, if the latest runtime has not been torn down, each of its handles denotes the object it
was issued for or has been closed by the runtime. -/
theorem handles_survive_teardown (disk : Dir → Option Content) (documentDir : Bytes)
    (es : List RuntimeEvent)
    (hsafe : Machine.Along step TeardownSafe (start disk documentDir) es)
    (halive : (Machine.run step (start disk documentDir) es).Alive) :
    HandlesDenote (start disk documentDir) es := by
  have h : RunOk (start disk documentDir) es := by
    refine Machine.inv_past hsafe ⟨?_, fun _ => ⟨?_, ?_, ?_, ?_⟩⟩
      (fun is e hrun hs => hrun.snoc e hs)
    · exact fun k hk => (List.not_mem_nil hk).elim
    · exact Process.inv_start disk documentDir
    · exact fun w hw => (List.not_mem_nil hw).elim
    · exact fun w hw => (List.not_mem_nil hw).elim
    · exact fun w hw => (List.not_mem_nil hw).elim
  exact (h.kept halive).handlesDenote

/-- The old runtime's teardown is delivered right after the new one's install. -/
theorem handles_survive_early_teardown :
    HandlesDenote (start (fun _ => none) (ascii "/d"))
      [.install (ascii "/d"), .teardown 0, .call (.newLevelDB [] true false, {})] := by
  refine handles_survive_teardown (fun _ => none) (ascii "/d") _
    ⟨trivial, fun _ _ _ => ⟨rfl, ?_, ?_⟩, fun _ => ?_, trivial⟩ (by decide +kernel)
  · exact fun w hw => (List.not_mem_nil hw).elim
  · exact fun w hw => (List.not_mem_nil hw).elim
  · exact fun u hu => (List.not_mem_nil hu).elim

/-- It is delivered after the new runtime has opened a database: the handle of the database
finds nothing, and the runtime has closed nothing. -/
theorem late_teardown_loses_handles :
    (Machine.run step (start (fun _ => none) (ascii "/d"))
      [.install (ascii "/d"), .call (.newLevelDB [] true false, {}), .teardown 0]).Alive ∧
    ¬ HandlesDenote (start (fun _ => none) (ascii "/d"))
      [.install (ascii "/d"), .call (.newLevelDB [] true false, {}), .teardown 0] := by
  refine ⟨by decide +kernel, fun h => ?_⟩
  obtain ⟨o, -, hclosed | hfind⟩ := h.dbs
    { ref := .number 0, obj := some 0, gen := 2, name := [] } (by decide +kernel)
  · rcases hclosed with h₁ | h₂ | h₃ | h₄
    · exact h₁
    · rcases h₂ with ⟨i, w, v, on, hc, -⟩ | ⟨hc, -⟩
      · cases hc
      · cases hc
    · exact h₃
    · exact h₄
  · cases hfind

end Runtimes

end RnLeveldb
